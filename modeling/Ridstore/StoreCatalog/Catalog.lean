import Ridstore.Lib.Transition
import Ridstore.StoreCatalog.Install

/-
# Ridstore.StoreCatalog.Catalog — the manager of the manifest over a whole history

Every operation that the manager accepts gives the next manifest.  The history records the numbers that were given to
segments: those of new active data segments, of the outputs of compactions and of mapping segments.  Outputs are
installed under numbers that were reserved for them, each at most once.
-/

namespace Ridstore.StoreCatalog

open RecordLog (LogPos LogID SegmentSummary)

/-- The manifest with the compaction numbers that were reserved, those that were installed, and the numbers that
were given to data and to mapping segments, the newest last. -/
structure History where
  manifest : Manifest
  reserved : List Nat
  installed : List Nat
  dataIDs : List Nat
  mapIDs : List Nat
  deriving DecidableEq, Repr

inductive CatalogEvent
  | rotateData (expect : Nat) (sealedOld : SegmentSummary) (newActive nextID : Nat)
  | reserve (expect count : Nat)
  | installOutputs (expect : Nat) (outputs : List SegmentSummary)
  | rotateMap (expect : Nat) (sealedOld : MapSegmentSummary) (newActive nextID : Nat)
  | rewriteMap (base : Manifest) (update : MappingRewrite)
  | checkpoint (base : Manifest) (update : Checkpoint)
  | compactData (expect : Nat) (inputs : List SegmentSummary) (covered : Nat) (replayStart : LogPos)
  | retireData (expect : Nat) (update : DataRetire)
  | removeData (minimumGeneration : Nat) (sealedOld : SegmentSummary)

namespace History

variable (s : History)

/-- The outputs have reserved numbers that were not installed before. -/
def MayInstall (outputs : List SegmentSummary) : Prop :=
  ∀ output ∈ outputs, output.segmentID ∈ s.reserved ∧ output.segmentID ∉ s.installed

instance (outputs : List SegmentSummary) : Decidable (s.MayInstall outputs) :=
  inferInstanceAs (Decidable (∀ _ ∈ _, _))

/-- The history after an operation that gives no numbers. -/
def take (result : Except StoreError Manifest) : Option History :=
  result.toOption.map fun next => { s with manifest := next }

/-- **A change that the manager accepts.** -/
def step : CatalogEvent → Option History
  | .rotateData expect sealedOld newActive nextID =>
    (s.take (s.manifest.installDataRotation expect sealedOld newActive nextID)).map fun s' =>
      { s' with dataIDs := s'.dataIDs ++ [newActive] }
  | .reserve expect count =>
    match s.manifest.reserveCompactionSegments expect count with
    | .error _ => none
    | .ok (next, ids) => some { s with manifest := next, reserved := s.reserved ++ ids }
  | .installOutputs expect outputs =>
    if s.MayInstall outputs then
      (s.take (s.manifest.installCompactionOutputs expect outputs)).map fun s' =>
        { s' with
          installed := s'.installed ++ outputs.map SegmentSummary.segmentID
          dataIDs := s'.dataIDs ++ outputs.map SegmentSummary.segmentID }
    else none
  | .rotateMap expect sealedOld newActive nextID =>
    (s.take (s.manifest.installMapRotation expect sealedOld newActive nextID)).map fun s' =>
      { s' with mapIDs := s'.mapIDs ++ [newActive] }
  | .rewriteMap base update =>
    (s.take (s.manifest.installMappingRewrite base update)).map fun s' =>
      { s' with
        mapIDs := s'.mapIDs ++ update.sealedSegments.map MapSegmentSummary.segmentID ++ [update.activeSegment] }
  | .checkpoint base update => s.take (s.manifest.installCheckpoint base update)
  | .compactData expect inputs covered replayStart =>
    s.take (s.manifest.installDataCompaction expect inputs covered replayStart)
  | .retireData expect update => s.take (s.manifest.installDataRetire expect update)
  | .removeData minimumGeneration sealedOld => s.take (s.manifest.removeRecordLogSegment minimumGeneration sealedOld)

end History

/-- The history of a new store. -/
def History.initial (m : Manifest) : History := ⟨m, [], [], [1], [1]⟩

/-- **The manager of a store**, from its initial manifest on. -/
def catalogManager : Lib.Machine History CatalogEvent :=
  ⟨fun s => ∃ storeUUID recordLogID hard, (initialManifest storeUUID recordLogID hard).Valid ∧
    s = .initial (initialManifest storeUUID recordLogID hard), History.step⟩

end Ridstore.StoreCatalog
