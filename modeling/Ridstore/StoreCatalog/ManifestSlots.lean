import Ridstore.Lib.Durable
import Ridstore.Lib.Transition
import Ridstore.StoreCatalog.ManifestCodec

/-
# Ridstore.StoreCatalog.ManifestSlots — the two files of the manifest

A manifest is installed in the file of its generation's parity: it is written to a temporary file, synced,
renamed over the manifest of the last generation but one, and the directory is synced.  Loading takes the newer
one of the two files; recovery also removes the temporary files.

The steps are the operations of the file system; an operation may fail, the process may end and the system may
crash between any two of them.  After a crash every name of the directory has one of the values since the last
sync of the directory, each name on its own, and every file has its synced bytes with any number of those written
later.
-/

namespace Ridstore.StoreCatalog

open Lib List Function Option

/-! ## §1 — The directory -/

/-- A file: its bytes, and how many of them are synced. -/
structure SlotFile where
  bytes : Bytes
  synced : Nat
  deriving DecidableEq, Repr

/-- The names of the manifest files and of their temporary files, with the files they lead to. -/
structure SlotDir where
  finals : Nat → Cell (Option Nat)
  temps : Nat → Cell (Option Nat)
  files : Nat → SlotFile
  next : Nat

/-- What a crash leaves: the number of a value for every name and of bytes for every file. -/
structure SlotCrash where
  finals : Nat → Nat
  temps : Nat → Nat
  bytes : Nat → Nat

namespace SlotFile

def crash (f : SlotFile) (n : Nat) : SlotFile :=
  ⟨f.bytes.take (max f.synced n), (f.bytes.take (max f.synced n)).length⟩

end SlotFile

namespace SlotDir

variable (d : SlotDir)

def empty : SlotDir := ⟨fun _ => .of none, fun _ => .of none, fun _ => ⟨[], 0⟩, 0⟩

/-- `os.Remove` of a temporary file. -/
def removeTemp (slot : Nat) : SlotDir := { d with temps := update d.temps slot ((d.temps slot).write none) }

def sync : SlotDir := { d with finals := fun slot => (d.finals slot).sync, temps := fun slot => (d.temps slot).sync }

/-- `os.OpenFile` with a new name. -/
def createTemp (slot : Nat) : SlotDir :=
  { d with
    temps := update d.temps slot ((d.temps slot).write (some d.next))
    files := update d.files d.next ⟨[], 0⟩
    next := d.next + 1 }

def setFile (i : Nat) (f : SlotFile) : SlotDir := { d with files := update d.files i f }

/-- `os.Rename` of a temporary file to its manifest file. -/
def rename (slot : Nat) : SlotDir :=
  { d with
    finals := update d.finals slot ((d.finals slot).write (d.temps slot).current)
    temps := update d.temps slot ((d.temps slot).write none) }

def crash (c : SlotCrash) : SlotDir :=
  { d with
    finals := fun slot => (d.finals slot).crash (c.finals slot)
    temps := fun slot => (d.temps slot).crash (c.temps slot)
    files := fun i => (d.files i).crash (c.bytes i) }

/-- The bytes of a manifest file. -/
def read (slot : Nat) : Option Bytes := (d.finals slot).current.map fun i => (d.files i).bytes

end SlotDir

/-! ## §2 — Loading -/

/-- The errors of `load`; the failures are joined. -/
inductive LoadError
  | notExist
  | failures (errs : List (Fault CodecError))
  | generationsDiffer
  deriving DecidableEq, Repr

/-- One file in the loop of `load`. -/
def readSlot (d : SlotDir) (slot : Nat) : Option (Except (Fault CodecError) (Manifest × Bytes)) :=
  (d.read slot).map fun bytes => (decode bytes).map fun m => (m, bytes)

/-- The files that were decoded. -/
def readValues (d : SlotDir) : List (Manifest × Bytes) :=
  ([0, 1].filterMap (readSlot d)).filterMap Except.toOption

/-- The error of a file that cannot be decoded. -/
def readFailure (d : SlotDir) (slot : Nat) : Option (Fault CodecError) :=
  match readSlot d slot with
  | some (.error err) => some err
  | some (.ok _) | none => none

/-- **`Load`.**  The error of a file counts only when no file can be decoded. -/
def load (d : SlotDir) : Except LoadError Manifest :=
  match readValues d with
  | [] =>
    if [0, 1].filterMap (readFailure d) = [] then .error .notExist
    else .error (.failures ([0, 1].filterMap (readFailure d)))
  | [v] => .ok v.1
  | v :: w :: _ =>
    if v.1.generation = w.1.generation then if v.2 ≠ w.2 then .error .generationsDiffer else .ok v.1
    else if v.1.generation < w.1.generation then .ok w.1
    else .ok v.1

/-! ## §3 — Installing and recovering -/

/-- The next operation of an `Install`; the file that is written. -/
inductive InstallPhase
  | removeTemp
  | syncRemoved
  | create
  | write (file : Nat)
  | syncFile (file : Nat)
  | rename (file : Nat)
  | syncDir
  deriving DecidableEq, Repr

/-- What the process does; `recovering` has loaded a manifest and removes the temporary files from a slot on. -/
inductive SlotPhase
  | idle
  | installing (m : Manifest) (bytes : Bytes) (phase : InstallPhase)
  | down
  | recovering (m : Manifest) (slot : Nat)
  | failed (err : LoadError)
  deriving DecidableEq, Repr

/-- The directory and the process.  `current` is the manifest of the manager, which the last successful `Install` or
`LoadRecovering` has returned; `attempts` are the manifests that were given to `Install` since. -/
structure SlotState where
  dir : SlotDir
  phase : SlotPhase
  current : Option Manifest
  attempts : List Manifest

inductive SlotEvent
  | install (m : Manifest)
  | write (n : Nat)
  | proceed
  | fail
  | stop
  | crash (c : SlotCrash)
  | recover

/-- The generation that comes next; that of a new store is one. -/
def nextGeneration (current : Option Manifest) : Nat := (current.map Manifest.generation).getD 0 + 1

namespace SlotState

variable (s : SlotState)

/-- `Manager.install` calls `Install` with the next generation; the numbers of a manifest have their types. -/
def install (m : Manifest) : Option SlotState :=
  match s.phase, encode m with
  | .idle, .ok bytes =>
    if m.generation = nextGeneration s.current ∧ m.Fits then
      some { s with phase := .installing m bytes .removeTemp, attempts := s.attempts ++ [m] }
    else none
  | _, _ => none

/-- `writeFull` writes some of the bytes that are missing. -/
def write (n : Nat) : Option SlotState :=
  match s.phase with
  | .installing m bytes (.write i) =>
    let f := s.dir.files i
    some { s with
      dir := s.dir.setFile i { f with bytes := bytes.take (f.bytes.length + n) }
      phase := .installing m bytes (if bytes.length ≤ f.bytes.length + n then .syncFile i else .write i) }
  | _ => none

/-- The next operation of an `Install`. -/
def proceedInstall (m : Manifest) (bytes : Bytes) : InstallPhase → Option SlotState
  | .removeTemp =>
    if (s.dir.temps (m.generation % 2)).current = none then
      some { s with phase := .installing m bytes .create }
    else
      some { s with dir := s.dir.removeTemp (m.generation % 2), phase := .installing m bytes .syncRemoved }
  | .syncRemoved => some { s with dir := s.dir.sync, phase := .installing m bytes .create }
  | .create =>
    some { s with dir := s.dir.createTemp (m.generation % 2), phase := .installing m bytes (.write s.dir.next) }
  | .write _ => none
  | .syncFile i =>
    some { s with
      dir := s.dir.setFile i ⟨(s.dir.files i).bytes, (s.dir.files i).bytes.length⟩
      phase := .installing m bytes (.rename i) }
  | .rename _ => some { s with dir := s.dir.rename (m.generation % 2), phase := .installing m bytes .syncDir }
  -- `Install` returns nil, and the manager takes the manifest
  | .syncDir => some { dir := s.dir.sync, phase := .idle, current := some m, attempts := [] }

/-- The next operation of a `LoadRecovering` that has loaded a manifest. -/
def proceedRecovery (m : Manifest) (slot : Nat) : SlotState :=
  if slot < 2 then
    { s with
      dir := if (s.dir.temps slot).current = none then s.dir else s.dir.removeTemp slot
      phase := .recovering m (slot + 1) }
  else { dir := s.dir.sync, phase := .idle, current := some m, attempts := [] }

def proceed : Option SlotState :=
  match s.phase with
  | .installing m bytes phase => s.proceedInstall m bytes phase
  | .recovering m slot => some (s.proceedRecovery m slot)
  | .idle | .down | .failed _ => none

/-- An operation fails: `Install` returns the error to the manager, `LoadRecovering` to a caller that gives up. -/
def fail : Option SlotState :=
  match s.phase with
  | .installing _ _ _ => some { s with phase := .idle }
  | .recovering _ _ => some { s with phase := .down }
  | .idle | .down | .failed _ => none

/-- `LoadRecovering`; without a manifest the initialization of the store goes on. -/
def recover : Option SlotState :=
  match s.phase with
  | .down =>
    match load s.dir with
    | .ok m => some { s with phase := .recovering m 0 }
    | .error .notExist => some { s with phase := .idle, current := none }
    | .error err => some { s with phase := .failed err }
  | _ => none

def step : SlotEvent → Option SlotState
  | .install m => s.install m
  | .write n => s.write n
  | .proceed => s.proceed
  | .fail => s.fail
  | .stop => some { s with phase := .down }
  | .crash c => some { s with dir := s.dir.crash c, phase := .down }
  | .recover => s.recover

end SlotState

/-- **The manifest files of a store**, from an empty directory on. -/
def manifestSlots : Machine SlotState SlotEvent :=
  ⟨fun s => s = ⟨.empty, .idle, none, []⟩, SlotState.step⟩

/-! ## §4 — What the directory holds -/

section Safety

variable {d d' : SlotDir} {current : Option Manifest} {attempts attempts' : List Manifest}
  {slot i j : Nat} {m : Manifest} {v : Option Nat}

/-- A file holds a manifest, and all of it is synced. -/
structure Holds (d : SlotDir) (i : Nat) (m : Manifest) : Prop where
  created : i < d.next
  fits : m.Fits
  bytes : encode m = .ok (d.files i).bytes
  synced : (d.files i).synced = (d.files i).bytes.length

/-- A file of the slot of a manifest that is older than the current one, or of one that `Install` was given since. -/
def OtherSlot (d : SlotDir) (current : Option Manifest) (attempts : List Manifest) (slot : Nat)
    (v : Option Nat) : Prop :=
  v = none ∨ ∃ i m, v = some i ∧ Holds d i m ∧ m.generation % 2 = slot ∧
    (m ∈ attempts ∨ m.generation + 1 < nextGeneration current)

/-- What the name of a manifest file may lead to: the slot of the current manifest has it. -/
def SlotOk (d : SlotDir) (current : Option Manifest) (attempts : List Manifest) (slot : Nat)
    (v : Option Nat) : Prop :=
  match current with
  | some g => if slot = g.generation % 2 then ∃ i, v = some i ∧ Holds d i g
      else OtherSlot d current attempts slot v
  | none => OtherSlot d current attempts slot v

/-- **Whatever a crash leaves of the names is in order.** -/
def DirOk (d : SlotDir) (current : Option Manifest) (attempts : List Manifest) : Prop :=
  ∀ slot v, (d.finals slot).Survives v → SlotOk d current attempts slot v

theorem OtherSlot.mono (h : OtherSlot d current attempts slot v)
    (hholds : ∀ i m, v = some i → Holds d i m → Holds d' i m) (hattempts : attempts ⊆ attempts') :
    OtherSlot d' current attempts' slot v := by
  rcases h with hnone | ⟨i, m, hv, hm, hparity, hold⟩
  · exact .inl hnone
  · exact .inr ⟨i, m, hv, hholds i m hv hm, hparity, hold.imp_left fun hin => hattempts hin⟩

theorem SlotOk.mono (h : SlotOk d current attempts slot v)
    (hholds : ∀ i m, v = some i → Holds d i m → Holds d' i m) (hattempts : attempts ⊆ attempts') :
    SlotOk d' current attempts' slot v := by
  unfold SlotOk at h ⊢
  split at h
  · split at h
    next hslot =>
      obtain ⟨i, hv, hm⟩ := h
      rw [if_pos hslot]
      exact ⟨i, hv, hholds i _ hv hm⟩
    next hslot =>
      rw [if_neg hslot]
      exact h.mono hholds hattempts
  · exact h.mono hholds hattempts

/-- A file that a name leads to was created. -/
theorem SlotOk.created (h : SlotOk d current attempts slot (some i)) : i < d.next := by
  have hother : OtherSlot d current attempts slot (some i) → i < d.next := by
    rintro (hnone | ⟨j, m, hv, hm, -⟩)
    · cases hnone
    · cases hv
      exact hm.created
  unfold SlotOk at h
  split at h
  · split at h
    · obtain ⟨j, hv, hm⟩ := h
      cases hv
      exact hm.created
    · exact hother h
  · exact hother h

/-- Other files than the one that is written stay as they are. -/
theorem Holds.setFile (h : Holds d j m) (hne : j ≠ i) (f : SlotFile) : Holds (d.setFile i f) j m := by
  have hfile : (d.setFile i f).files j = d.files j := update_of_ne hne _ _
  exact ⟨h.created, h.fits, hfile ▸ h.bytes, hfile ▸ h.synced⟩

/-- A synced file survives a crash. -/
theorem Holds.crash (h : Holds d i m) (c : SlotCrash) : Holds (d.crash c) i m := by
  have hbytes : ((d.crash c).files i).bytes = (d.files i).bytes :=
    take_of_length_le (h.synced ▸ Nat.le_max_left _ _)
  refine ⟨h.created, h.fits, hbytes ▸ h.bytes, rfl⟩

theorem DirOk.crash (h : DirOk d current attempts) (c : SlotCrash) : DirOk (d.crash c) current attempts := by
  intro slot v hv
  obtain ⟨a, ha, heq⟩ := Cell.crash_eq (d.finals slot) (c.finals slot)
  have hv' : (Cell.of a).Survives v := heq ▸ hv
  obtain rfl := Cell.survives_of.mp hv'
  exact (h slot v ha).mono (fun i m _ hm => hm.crash c) (List.Subset.refl _)

theorem DirOk.sync (h : DirOk d current attempts) : DirOk d.sync current attempts := by
  intro slot v hv
  have hcurrent : v = (d.finals slot).current := Cell.survives_sync.mp hv
  have hok := h slot v (hcurrent ▸ Cell.survives_current _)
  exact hok.mono (fun i m _ hm => ⟨hm.created, hm.fits, hm.bytes, hm.synced⟩) (List.Subset.refl _)

/-! ## §5 — Loading what is there -/

theorem Holds.readSlot (h : Holds d i m) (hi : (d.finals slot).current = some i) :
    readSlot d slot = some (.ok (m, (d.files i).bytes)) := by
  rw [StoreCatalog.readSlot, SlotDir.read, hi, map_some, map_some, decode_encode h.fits h.bytes]
  rfl

theorem readSlot_none (h : (d.finals slot).current = none) : readSlot d slot = none := by
  rw [readSlot, SlotDir.read, h]
  rfl

/-- **The newer one of two manifests is loaded.** -/
theorem load_newest (hslot : slot < 2) (hi : (d.finals slot).current = some i) (h : Holds d i m)
    (hother : (d.finals (1 - slot)).current = none ∨
      ∃ j m', (d.finals (1 - slot)).current = some j ∧ Holds d j m' ∧ m'.generation < m.generation) :
    load d = .ok m := by
  have hread := h.readSlot hi
  rcases hother with hnone | ⟨j, m', hj, hm', hlt⟩
  · have hread' : StoreCatalog.readSlot d (1 - slot) = none := readSlot_none hnone
    obtain rfl | rfl : slot = 0 ∨ slot = 1 := by omega
    · simp [load, readValues, hread, hread', Except.toOption]
    · simp [load, readValues, hread, hread', Except.toOption]
  · have hread' := hm'.readSlot hj
    obtain rfl | rfl : slot = 0 ∨ slot = 1 := by omega
    · simp [load, readValues, hread, hread', Except.toOption, Nat.ne_of_gt hlt, Nat.lt_asymm hlt]
    · simp [load, readValues, hread, hread', Except.toOption, Nat.ne_of_lt hlt, hlt]

/-- The attempts have the next generation. -/
def AttemptsNext (current : Option Manifest) (attempts : List Manifest) : Prop :=
  ∀ m ∈ attempts, m.generation = nextGeneration current

theorem SlotOk.holds {g : Manifest} (h : SlotOk d (some g) attempts (g.generation % 2) v) :
    ∃ i, v = some i ∧ Holds d i g := by
  rwa [SlotOk, if_pos rfl] at h

theorem SlotOk.other {g : Manifest} (h : SlotOk d (some g) attempts slot v) (hne : slot ≠ g.generation % 2) :
    OtherSlot d (some g) attempts slot v := by
  rwa [SlotOk, if_neg hne] at h

/-- The slots after an attempt has become the current manifest. -/
theorem SlotOk.attempt (hattempts : AttemptsNext current attempts) {a : Manifest} (ha : a ∈ attempts) (hi : Holds d i a)
    (h : SlotOk d current attempts slot v) (hslot : slot = a.generation % 2 → v = some i) :
    SlotOk d (some a) [] slot v := by
  have hnext : nextGeneration (some a) = a.generation + 1 := rfl
  have ha' := hattempts a ha
  unfold SlotOk
  dsimp only
  split
  next heq => exact ⟨i, hslot heq, hi⟩
  next hne =>
    -- the other slot had the current manifest, or an older one
    have hother : OtherSlot d current attempts slot v → OtherSlot d (some a) [] slot v := by
      rintro (hnone | ⟨j, m, hv, hm, hparity, hin | hold⟩)
      · exact .inl hnone
      · rw [hattempts m hin, ← ha'] at hparity
        exact absurd hparity.symm hne
      · refine .inr ⟨j, m, hv, hm, hparity, .inr ?_⟩
        omega
    cases current with
    | none => exact hother h
    | some g =>
      have hg : a.generation = g.generation + 1 := ha'
      by_cases hparity : slot = g.generation % 2
      · subst hparity
        obtain ⟨j, hv, hm⟩ := h.holds
        exact .inr ⟨j, g, hv, hm, rfl, .inr (by omega)⟩
      · exact hother (h.other hparity)

/-- The current manifest is loaded; before the first one there is none. -/
def LoadsCurrent (d : SlotDir) : Option Manifest → Prop
  | some g => load d = .ok g
  | none => load d = .error .notExist

/-- **What is loaded**: an attempt, or the current manifest when no attempt is there. -/
theorem DirOk.load_cases (h : DirOk d current attempts) (hattempts : AttemptsNext current attempts) :
    (∃ a ∈ attempts, load d = .ok a ∧ ∀ slot, SlotOk d (some a) [] slot (d.finals slot).current) ∨
      (∀ slot, SlotOk d current [] slot (d.finals slot).current) ∧ LoadsCurrent d current := by
  have hnow : ∀ slot, SlotOk d current attempts slot (d.finals slot).current := fun slot =>
    h slot _ (Cell.survives_current _)
  by_cases hex : ∃ a ∈ attempts, ∃ i, (d.finals (a.generation % 2)).current = some i ∧ Holds d i a
  · obtain ⟨a, ha, i, hi, hm⟩ := hex
    have hslots : ∀ slot, SlotOk d (some a) [] slot (d.finals slot).current := fun slot =>
      (hnow slot).attempt hattempts ha hm fun heq => heq ▸ hi
    refine .inl ⟨a, ha, load_newest (Nat.mod_lt _ (by omega)) hi hm ?_, hslots⟩
    rcases (hslots (1 - a.generation % 2)).other (by omega) with hnone | ⟨j, m, hj, hm', -, hin | hold⟩
    · exact .inl hnone
    · exact absurd hin not_mem_nil
    · have hlt : m.generation + 1 < a.generation + 1 := hold
      exact .inr ⟨j, m, hj, hm', by omega⟩
  · have hother : ∀ slot, OtherSlot d current attempts slot (d.finals slot).current →
        OtherSlot d current [] slot (d.finals slot).current := by
      rintro slot (hnone | ⟨j, m, hj, hm, hparity, hin | hold⟩)
      · exact .inl hnone
      · exact absurd ⟨m, hin, j, hparity ▸ hj, hm⟩ hex
      · exact .inr ⟨j, m, hj, hm, hparity, .inr hold⟩
    refine .inr ?_
    cases current with
    | none =>
      have hslots : ∀ slot, (d.finals slot).current = none := by
        intro slot
        rcases hother slot (hnow slot) with hnone | ⟨j, m, -, -, -, hin | hold⟩
        · exact hnone
        · exact absurd hin not_mem_nil
        · exact absurd hold (by simp [nextGeneration])
      refine ⟨fun slot => .inl (hslots slot), ?_⟩
      have hread : ∀ slot, readSlot d slot = none := fun slot => readSlot_none (hslots slot)
      show load d = .error .notExist
      simp [load, readValues, readFailure, hread]
    | some g =>
      obtain ⟨i, hi, hm⟩ := (hnow (g.generation % 2)).holds
      have hslots : ∀ slot, SlotOk d (some g) [] slot (d.finals slot).current := by
        intro slot
        by_cases hparity : slot = g.generation % 2
        · subst hparity
          rw [SlotOk, if_pos rfl]
          exact ⟨i, hi, hm⟩
        · rw [SlotOk, if_neg hparity]
          exact hother slot ((hnow slot).other hparity)
      refine ⟨hslots, load_newest (Nat.mod_lt _ (by omega)) hi hm ?_⟩
      rcases (hslots (1 - g.generation % 2)).other (by omega) with hnone | ⟨j, m, hj, hm', -, hin | hold⟩
      · exact .inl hnone
      · exact absurd hin not_mem_nil
      · have hlt : m.generation + 1 < g.generation + 1 := hold
        exact .inr ⟨j, m, hj, hm', by omega⟩

/-- The slots, with what was loaded from them as the current manifest. -/
theorem DirOk.loaded (h : DirOk d current attempts) (hattempts : AttemptsNext current attempts)
    (hload : load d = .ok m) (slot : Nat) : SlotOk d (some m) [] slot (d.finals slot).current := by
  rcases h.load_cases hattempts with ⟨a, -, ha, hslots⟩ | ⟨hslots, hcurrent⟩
  · obtain rfl := Except.ok.inj (ha.symm.trans hload)
    exact hslots slot
  · cases current with
    | none => cases hcurrent.symm.trans hload
    | some g =>
      obtain rfl := Except.ok.inj (hcurrent.symm.trans hload)
      exact hslots slot

/-- The synced directory with what was loaded from it. -/
theorem DirOk.recovered (h : DirOk d current attempts) (hattempts : AttemptsNext current attempts)
    (hload : load d = .ok m) : DirOk d.sync (some m) [] := by
  intro slot v hv
  obtain rfl := Cell.survives_sync.mp hv
  exact (h.loaded hattempts hload slot).mono (fun i m _ hm => ⟨hm.created, hm.fits, hm.bytes, hm.synced⟩) (List.Subset.refl _)

/-! ## §6 — The invariant -/

/-- The file that an `Install` writes: its temporary name leads to it, and no manifest file does. -/
structure Writing (d : SlotDir) (slot i : Nat) : Prop where
  created : i < d.next
  temp : (d.temps slot).current = some i
  apart : ∀ slot, ¬ (d.finals slot).Survives (some i)

/-- How far an `Install` has come. -/
def InstallOk (d : SlotDir) (m : Manifest) (bytes : Bytes) : InstallPhase → Prop
  | .removeTemp | .syncRemoved | .create => True
  | .write i => Writing d (m.generation % 2) i ∧ (d.files i).bytes <+: bytes
  | .syncFile i => Writing d (m.generation % 2) i ∧ (d.files i).bytes = bytes
  | .rename i => Writing d (m.generation % 2) i ∧ Holds d i m
  | .syncDir => ∃ i, (d.finals (m.generation % 2)).current = some i ∧ Holds d i m

/-- What the process knows of the directory. -/
def PhaseOk (s : SlotState) : Prop :=
  match s.phase with
  | .installing m bytes phase =>
    m ∈ s.attempts ∧ m.Fits ∧ encode m = .ok bytes ∧ InstallOk s.dir m bytes phase
  | .recovering m _ => load s.dir = .ok m
  | .idle | .down => True
  | .failed _ => False

/-- **The invariant of the manifest files.** -/
structure SlotsSound (s : SlotState) : Prop where
  dir : DirOk s.dir s.current s.attempts
  attempts : AttemptsNext s.current s.attempts
  phase : PhaseOk s

variable {s s' : SlotState} {bytes : Bytes}

/-- Only the names of temporary files have changed. -/
theorem DirOk.of_finals (h : DirOk d current attempts) (hfinals : d'.finals = d.finals)
    (hholds : ∀ slot i m, (d.finals slot).Survives (some i) → Holds d i m → Holds d' i m) :
    DirOk d' current attempts := by
  intro slot v hv
  rw [hfinals] at hv
  exact (h slot v hv).mono (fun i m heq hm => hholds slot i m (heq ▸ hv) hm) (List.Subset.refl _)

theorem DirOk.removeTemp (h : DirOk d current attempts) (slot : Nat) :
    DirOk (d.removeTemp slot) current attempts :=
  h.of_finals rfl fun _ _ _ _ hm => ⟨hm.created, hm.fits, hm.bytes, hm.synced⟩

theorem load_removeTemp (d : SlotDir) (slot : Nat) : load (d.removeTemp slot) = load d := rfl

theorem DirOk.createTemp (h : DirOk d current attempts) (slot : Nat) :
    DirOk (d.createTemp slot) current attempts := by
  refine h.of_finals rfl fun _ i _ _ hm => ?_
  have hfile : (d.createTemp slot).files i = d.files i := update_of_ne (Nat.ne_of_lt hm.created) _ _
  exact ⟨Nat.lt_succ_of_lt hm.created, hm.fits, hfile ▸ hm.bytes, hfile ▸ hm.synced⟩

theorem DirOk.setFile (h : DirOk d current attempts) (hwriting : Writing d slot i) (f : SlotFile) :
    DirOk (d.setFile i f) current attempts := by
  refine h.of_finals rfl fun slot j _ hj hm => hm.setFile (fun heq => ?_) f
  exact hwriting.apart slot (heq ▸ hj)

/-- **The rename** puts an attempt in the slot that the current manifest does not have. -/
theorem DirOk.rename (h : DirOk d current attempts) (hattempts : AttemptsNext current attempts) (hm : m ∈ attempts)
    (htemp : (d.temps (m.generation % 2)).current = some i) (hholds : Holds d i m) :
    DirOk (d.rename (m.generation % 2)) current attempts := by
  intro slot v hv
  by_cases hslot : slot = m.generation % 2
  · subst hslot
    have hcell : (d.rename (m.generation % 2)).finals (m.generation % 2) =
        (d.finals (m.generation % 2)).write (some i) := by
      rw [SlotDir.rename, htemp]
      exact update_self _ _ _
    rw [hcell, Cell.survives_write] at hv
    rcases hv with rfl | hold
    · have hnew : OtherSlot (d.rename (m.generation % 2)) current attempts (m.generation % 2) (some i) :=
        .inr ⟨i, m, rfl, ⟨hholds.created, hholds.fits, hholds.bytes, hholds.synced⟩, rfl, .inl hm⟩
      cases current with
      | none => exact hnew
      | some g =>
        have hg : m.generation = g.generation + 1 := hattempts m hm
        rw [SlotOk, if_neg (by omega)]
        exact hnew
    · exact (h _ v hold).mono (fun i m _ hm => ⟨hm.created, hm.fits, hm.bytes, hm.synced⟩) (List.Subset.refl _)
  · have hcell : (d.rename (m.generation % 2)).finals slot = d.finals slot := update_of_ne hslot _ _
    rw [hcell] at hv
    exact (h slot v hv).mono (fun i m _ hm => ⟨hm.created, hm.fits, hm.bytes, hm.synced⟩) (List.Subset.refl _)

/-! ## §7 — The steps -/

section

variable (h : SlotsSound s)

include h

theorem SlotsSound.install (hs : s.install m = some s') : SlotsSound s' := by
  unfold SlotState.install at hs
  split at hs
  next bytes _ hencode =>
    obtain ⟨⟨hgeneration, hfits⟩, rfl⟩ := when_eq_some hs
    refine ⟨fun slot v hv => ?_, fun x hx => ?_, mem_append_right _ mem_cons_self, hfits, hencode, trivial⟩
    · exact (h.dir slot v hv).mono (fun _ _ _ hm => hm) (subset_append_left _ _)
    · rcases mem_snoc.mp hx with hold | hnew
      · exact h.attempts x hold
      · rw [hnew]
        exact hgeneration
  next => cases hs

theorem SlotsSound.write {n : Nat} (hs : s.write n = some s') : SlotsSound s' := by
  unfold SlotState.write at hs
  split at hs
  next m bytes i hphase =>
    cases hs
    have hok := h.phase
    rw [PhaseOk, hphase] at hok
    obtain ⟨hm, hfits, hencode, hwriting, hprefix⟩ := hok
    refine ⟨h.dir.setFile hwriting _, h.attempts, hm, hfits, hencode, ?_⟩
    have hwriting' : ∀ f, Writing (s.dir.setFile i f) (m.generation % 2) i := fun f =>
      ⟨hwriting.created, hwriting.temp, hwriting.apart⟩
    have hbytes : ∀ f, ((s.dir.setFile i f).files i).bytes = f.bytes := fun f =>
      congrArg SlotFile.bytes (update_self _ _ _)
    split
    next hle =>
      refine ⟨hwriting' _, ?_⟩
      rw [hbytes]
      exact take_of_length_le hle
    next =>
      refine ⟨hwriting' _, ?_⟩
      rw [hbytes]
      exact List.take_prefix _ _
  next => cases hs

/-- **The operations of an `Install`.** -/
theorem SlotsSound.proceedInstall {phase : InstallPhase} (hphase : s.phase = .installing m bytes phase)
    (hs : s.proceedInstall m bytes phase = some s') : SlotsSound s' := by
  have hok := h.phase
  rw [PhaseOk, hphase] at hok
  obtain ⟨hm, hfits, hencode, hinstall⟩ := hok
  cases phase with
  | removeTemp =>
    simp only [SlotState.proceedInstall] at hs
    split at hs
    · cases hs
      exact ⟨h.dir, h.attempts, hm, hfits, hencode, trivial⟩
    · obtain rfl := some.inj hs
      exact ⟨h.dir.removeTemp _, h.attempts, hm, hfits, hencode, trivial⟩
  | syncRemoved =>
    cases hs
    exact ⟨h.dir.sync, h.attempts, hm, hfits, hencode, trivial⟩
  | create =>
    obtain rfl := some.inj hs
    refine ⟨h.dir.createTemp _, h.attempts, hm, hfits, hencode, ⟨Nat.lt_succ_self _, ?_, ?_⟩, ?_⟩
    · show (update s.dir.temps (m.generation % 2) _ (m.generation % 2)).current = some s.dir.next
      rw [update_self, Cell.current_write]
    · -- a new file has no other name
      intro slot hsurvives
      exact absurd (h.dir slot _ hsurvives).created (Nat.lt_irrefl _)
    · show (update s.dir.files s.dir.next ⟨[], 0⟩ s.dir.next).bytes <+: bytes
      rw [update_self]
      exact List.nil_prefix
  | write i => cases hs
  | syncFile i =>
    cases hs
    obtain ⟨hwriting, hbytes⟩ := hinstall
    refine ⟨h.dir.setFile hwriting _, h.attempts, hm, hfits, hencode,
      ⟨hwriting.created, hwriting.temp, hwriting.apart⟩, hwriting.created, hfits, ?_, ?_⟩
    · show encode m = .ok (update s.dir.files i _ i).bytes
      rw [update_self, hencode, hbytes]
    · show (update s.dir.files i _ i).synced = (update s.dir.files i _ i).bytes.length
      rw [update_self]
  | rename i =>
    obtain rfl := some.inj hs
    obtain ⟨hwriting, hholds⟩ := hinstall
    refine ⟨h.dir.rename h.attempts hm hwriting.temp hholds, h.attempts, hm, hfits, hencode, i, ?_,
      hholds.created, hholds.fits, hholds.bytes, hholds.synced⟩
    show (update s.dir.finals (m.generation % 2) _ (m.generation % 2)).current = some i
    rw [update_self, Cell.current_write, hwriting.temp]
  | syncDir =>
    cases hs
    obtain ⟨i, hi, hholds⟩ := hinstall
    refine ⟨fun slot v hv => ?_, nofun, trivial⟩
    obtain rfl := Cell.survives_sync.mp hv
    have hslot := h.dir slot _ (Cell.survives_current _)
    exact (hslot.attempt h.attempts hm hholds fun heq => heq ▸ hi).mono
      (fun i m _ hm => ⟨hm.created, hm.fits, hm.bytes, hm.synced⟩) (List.Subset.refl _)

/-- **The operations of a `LoadRecovering`** do not touch what is loaded. -/
theorem SlotsSound.proceedRecovery {slot : Nat} (hphase : s.phase = .recovering m slot) :
    SlotsSound (s.proceedRecovery m slot) := by
  have hload := h.phase
  rw [PhaseOk, hphase] at hload
  unfold SlotState.proceedRecovery
  split
  · refine ⟨?_, h.attempts, ?_⟩
    · split
      · exact h.dir
      · exact h.dir.removeTemp slot
    · show load _ = .ok m
      split
      · exact hload
      · rw [load_removeTemp]
        exact hload
  · exact ⟨h.dir.recovered h.attempts hload, nofun, trivial⟩

theorem SlotsSound.recover (hs : s.recover = some s') : SlotsSound s' := by
  have hnot : ∀ err, load s.dir = .error err → err = .notExist ∧ s.current = none := by
    intro err herr
    rcases h.dir.load_cases h.attempts with ⟨a, -, ha, -⟩ | ⟨-, hcurrent⟩
    · cases ha.symm.trans herr
    · cases hc : s.current with
      | some g =>
        rw [hc] at hcurrent
        cases hcurrent.symm.trans herr
      | none =>
        rw [hc] at hcurrent
        exact ⟨(Except.error.inj (hcurrent.symm.trans herr)).symm, rfl⟩
  unfold SlotState.recover at hs
  split at hs
  · split at hs
    next m hload =>
      cases hs
      exact ⟨h.dir, h.attempts, hload⟩
    next hload =>
      obtain rfl := some.inj hs
      have hnone := (hnot _ hload).2
      exact ⟨hnone ▸ h.dir, hnone ▸ h.attempts, trivial⟩
    next err hne hload => exact absurd (hnot _ hload).1 hne
  · cases hs

/-- **The step lemma.** -/
theorem SlotsSound.step {e : SlotEvent} (hs : s.step e = some s') : SlotsSound s' := by
  cases e with
  | install m => exact h.install hs
  | write n => exact h.write hs
  | proceed =>
    have hproceed : s.proceed = some s' := hs
    unfold SlotState.proceed at hproceed
    split at hproceed
    next m bytes phase hphase => exact h.proceedInstall hphase hproceed
    next m slot hphase =>
      cases hproceed
      exact h.proceedRecovery hphase
    all_goals cases hproceed
  | fail =>
    have hfail : s.fail = some s' := hs
    unfold SlotState.fail at hfail
    split at hfail
    · cases hfail
      exact ⟨h.dir, h.attempts, trivial⟩
    · obtain rfl := some.inj hfail
      exact ⟨h.dir, h.attempts, trivial⟩
    all_goals cases hfail
  | stop =>
    cases hs
    exact ⟨h.dir, h.attempts, trivial⟩
  | crash c =>
    obtain rfl := some.inj hs
    exact ⟨h.dir.crash c, h.attempts, trivial⟩
  | recover => exact h.recover hs

end

theorem SlotsSound.reachable (h : manifestSlots.Reachable s) : SlotsSound s := by
  refine Machine.Reach.invariant (M := manifestSlots) (SlotsSound) ?_ (fun _ _ _ h _ hs => h.step hs) h
  rintro s rfl
  refine ⟨fun slot v hv => .inl (Cell.survives_of.mp hv), nofun, trivial⟩

/-! ## §8 — Atomicity -/

/-- An operation of the file system does not fail. -/
def NoFailure (_ : SlotState) : SlotEvent → Prop
  | .fail => False
  | .install _ | .write _ | .proceed | .stop | .crash _ | .recover => True

/-- Without a failure an `Install` starts when the one before has returned or was ended by a crash. -/
structure OneAttempt (s : SlotState) : Prop where
  one : s.current ≠ none → s.attempts.length ≤ 1
  idle : s.current ≠ none → s.phase = .idle → s.attempts = []

theorem OneAttempt.step (h : OneAttempt s) {e : SlotEvent} (hok : NoFailure s e) (hs : s.step e = some s') :
    OneAttempt s' := by
  -- what is not idle has no more to show
  have hbusy : ∀ {dir phase}, phase ≠ .idle → OneAttempt { s with dir := dir, phase := phase } := fun hphase =>
    ⟨h.one, fun _ hidle => absurd hidle hphase⟩
  have hnew : ∀ {dir m}, OneAttempt ⟨dir, .idle, some m, []⟩ := ⟨fun _ => Nat.zero_le _, fun _ _ => rfl⟩
  cases e with
  | install m =>
    have hinstall : s.install m = some s' := hs
    unfold SlotState.install at hinstall
    split at hinstall
    next bytes hphase _ =>
      obtain ⟨-, rfl⟩ := when_eq_some hinstall
      refine ⟨fun hcurrent => ?_, fun _ hidle => (nomatch hidle)⟩
      rw [h.idle hcurrent hphase]
      exact Nat.le_refl _
    next => cases hinstall
  | write n =>
    have hwrite : s.write n = some s' := hs
    unfold SlotState.write at hwrite
    split at hwrite
    · cases hwrite
      exact hbusy fun hidle => (nomatch hidle)
    · cases hwrite
  | proceed =>
    have hproceed : s.proceed = some s' := hs
    unfold SlotState.proceed at hproceed
    split at hproceed
    next m bytes phase hphase =>
      cases phase with
      | removeTemp =>
        simp only [SlotState.proceedInstall] at hproceed
        split at hproceed <;> obtain rfl := some.inj hproceed <;> exact hbusy fun hidle => (nomatch hidle)
      | syncRemoved | create | syncFile i | rename i =>
        cases hproceed
        exact hbusy fun hidle => (nomatch hidle)
      | write i => cases hproceed
      | syncDir =>
        obtain rfl := some.inj hproceed
        exact hnew
    next m slot hphase =>
      cases hproceed
      unfold SlotState.proceedRecovery
      split
      · exact hbusy fun hidle => (nomatch hidle)
      · exact hnew
    all_goals cases hproceed
  | fail => exact absurd hok id
  | stop | crash c =>
    cases hs
    exact hbusy fun hidle => (nomatch hidle)
  | recover =>
    have hrecover : s.recover = some s' := hs
    unfold SlotState.recover at hrecover
    split at hrecover
    · split at hrecover <;> obtain rfl := some.inj hrecover
      · exact hbusy fun hidle => (nomatch hidle)
      · exact ⟨fun hcurrent => absurd rfl hcurrent, fun hcurrent => absurd rfl hcurrent⟩
      · exact hbusy fun hidle => (nomatch hidle)
    · cases hrecover

theorem OneAttempt.reachable (h : manifestSlots.Reach NoFailure s) : OneAttempt s := by
  refine Machine.Reach.invariant (M := manifestSlots) OneAttempt ?_ (fun _ _ _ h hok hs => h.step hok hs) h
  rintro s rfl
  exact ⟨fun _ => Nat.zero_le _, fun _ _ => rfl⟩

/-- What `Load` finds: the current manifest or one of those that `Install` was given since. -/
def LoadsOne (d : SlotDir) (s : SlotState) : Prop := LoadsCurrent d s.current ∨ ∃ a ∈ s.attempts, load d = .ok a

theorem SlotsSound.loadsOne (h : SlotsSound s) : LoadsOne s.dir s := by
  rcases h.dir.load_cases h.attempts with ⟨a, ha, hload, -⟩ | ⟨-, hcurrent⟩
  · exact .inr ⟨a, ha, hload⟩
  · exact .inl hcurrent

theorem SlotsSound.loadsOne_crash (h : SlotsSound s) (c : SlotCrash) : LoadsOne (s.dir.crash c) s :=
  SlotsSound.loadsOne (s := { s with dir := s.dir.crash c, phase := .down }) ⟨h.dir.crash c, h.attempts, trivial⟩

/-- The manifest is loaded, now and after every crash. -/
def Durable (d : SlotDir) (m : Manifest) : Prop := load d = .ok m ∧ ∀ c, load (d.crash c) = .ok m

/-- When nothing was given to `Install` since, the current manifest is the one that is loaded. -/
theorem SlotsSound.durable (h : SlotsSound s) (hcurrent : s.current = some m) (hattempts : s.attempts = []) :
    Durable s.dir m := by
  have hone : ∀ {d}, LoadsOne d s → load d = .ok m := by
    rintro d (hload | ⟨a, ha, -⟩)
    · rwa [hcurrent] at hload
    · rw [hattempts] at ha
      exact absurd ha not_mem_nil
  exact ⟨hone h.loadsOne, fun c => hone (h.loadsOne_crash c)⟩

/-! ## §9 — Progress -/

/-- The process is idle with a manifest that is durable. -/
structure Settled (s : SlotState) (m : Manifest) : Prop where
  phase : s.phase = .idle
  current : s.current = some m
  attempts : s.attempts = []
  durable : Durable s.dir m

/-- A run from a sound state ends in a sound state. -/
theorem SlotsSound.exec {events : List SlotEvent} (h : SlotsSound s) (hrun : manifestSlots.exec s events = some s') :
    SlotsSound s' := by
  induction events generalizing s with
  | nil =>
    cases hrun
    exact h
  | cons e rest ih =>
    obtain ⟨t, hstep, hrest⟩ := bind_eq_some_iff.mp hrun
    exact ih (h.step hstep) hrest

/-- The events of a `LoadRecovering` that finds a manifest and is not disturbed. -/
def recoverRun : List SlotEvent := [.recover, .proceed, .proceed, .proceed]

/-- **A recovery that is not disturbed returns what is loaded.** -/
theorem SlotsSound.recovers (h : SlotsSound s) (hdown : s.phase = .down) (hload : load s.dir = .ok m) :
    ∃ s', manifestSlots.exec s recoverRun = some s' ∧ Settled s' m := by
  have hrecover : s.step .recover = some { s with phase := .recovering m 0 } := by
    show s.recover = _
    rw [SlotState.recover, hdown, hload]
  have hrun : manifestSlots.exec s recoverRun = manifestSlots.exec { s with phase := .recovering m 0 }
      [.proceed, .proceed, .proceed] := Machine.exec_cons hrecover
  obtain ⟨d, hend⟩ : ∃ d, manifestSlots.exec { s with phase := .recovering m 0 } [.proceed, .proceed, .proceed] =
      some ⟨d, .idle, some m, []⟩ := ⟨_, rfl⟩
  rw [hend] at hrun
  exact ⟨_, hrun, rfl, rfl, rfl, (h.exec hrun).durable rfl rfl⟩

/-- The events of an `Install` that is not disturbed; it writes all bytes at once. -/
def SlotState.installRun (s : SlotState) (m : Manifest) : List SlotEvent :=
  .install m :: replicate (if (s.dir.temps (m.generation % 2)).current = none then 2 else 3) .proceed ++
    [.write (containerHeaderSize + m.payloadSize), .proceed, .proceed, .proceed]

/-- The part of an `Install` behind the creation of its file. -/
theorem exec_written {bytes : Bytes} {n : Nat} (hfile : (s.dir.files i).bytes = []) (hn : bytes.length ≤ n)
    (hphase : s.phase = .installing m bytes (.write i)) :
    ∃ d, manifestSlots.exec s [.write n, .proceed, .proceed, .proceed] = some ⟨d, .idle, some m, []⟩ := by
  have hwrite : s.step (.write n) = some { s with
      dir := s.dir.setFile i { s.dir.files i with bytes := bytes.take n }
      phase := .installing m bytes (.syncFile i) } := by
    show s.write n = _
    simp [SlotState.write, hphase, hfile, hn]
  rw [Machine.exec_cons hwrite]
  exact ⟨_, rfl⟩

/-- **An `Install` that is not disturbed returns.** -/
theorem SlotsSound.installs (h : SlotsSound s) (hidle : s.phase = .idle) (hfits : m.Fits) (hencodable : m.Encodable)
    (hgeneration : m.generation = nextGeneration s.current) :
    ∃ s', manifestSlots.exec s (s.installRun m) = some s' ∧ Settled s' m := by
  have hencode : encode m = .ok m.container := encode_eq_ok.mpr ⟨hencodable, rfl⟩
  have hinstall : s.step (.install m) = some { s with
      phase := .installing m m.container .removeTemp, attempts := s.attempts ++ [m] } := by
    show s.install m = _
    simp only [SlotState.install, hidle, hencode]
    exact if_pos ⟨hgeneration, hfits⟩
  have hcreated : ∃ t, manifestSlots.exec s (.install m ::
      replicate (if (s.dir.temps (m.generation % 2)).current = none then 2 else 3) .proceed) = some t ∧
        ∃ i, t.phase = .installing m m.container (.write i) ∧ (t.dir.files i).bytes = [] := by
    -- an old temporary file costs one more operation
    have hfile : ∀ d : SlotDir, ((d.createTemp (m.generation % 2)).files d.next).bytes = [] := by
      intro d
      show (update d.files d.next ⟨[], 0⟩ d.next).bytes = []
      rw [update_self]
    rw [Machine.exec_cons hinstall]
    split
    next hnone =>
      have hremove : manifestSlots.step { s with
          phase := .installing m m.container .removeTemp, attempts := s.attempts ++ [m] } .proceed = some { s with
            phase := .installing m m.container .create, attempts := s.attempts ++ [m] } := if_pos hnone
      rw [replicate_succ, Machine.exec_cons hremove]
      exact ⟨_, rfl, _, rfl, hfile s.dir⟩
    next hsome =>
      have hremove : manifestSlots.step { s with
          phase := .installing m m.container .removeTemp, attempts := s.attempts ++ [m] } .proceed = some { s with
            dir := s.dir.removeTemp (m.generation % 2)
            phase := .installing m m.container .syncRemoved, attempts := s.attempts ++ [m] } := if_neg hsome
      rw [replicate_succ, Machine.exec_cons hremove]
      exact ⟨_, rfl, _, rfl, hfile (s.dir.removeTemp (m.generation % 2)).sync⟩
  obtain ⟨t, ht, i, hphase, hfile⟩ := hcreated
  obtain ⟨d, hend⟩ := exec_written hfile (Nat.le_of_eq (length_container m)) hphase
  have hrun : manifestSlots.exec s (s.installRun m) = some ⟨d, .idle, some m, []⟩ := by
    rw [SlotState.installRun, Machine.exec_append ht, hend]
  exact ⟨_, hrun, rfl, rfl, rfl, (h.exec hrun).durable rfl rfl⟩

/-! ## §10 — Atomicity -/

/-- **What a state of the manifest files promises.** -/
structure Atomic (s : SlotState) : Prop where
  /-- `Load` returns the manifest of the last `Install` or recovery that has returned, or one that `Install` was given
  since. -/
  loads : LoadsOne s.dir s
  /-- So it does after a crash. -/
  crash : ∀ c, LoadsOne (s.dir.crash c) s
  /-- What `Install` was given since has the next generation. -/
  attempts : ∀ a ∈ s.attempts, a.generation = nextGeneration s.current
  /-- There is only one of them unless an operation has failed. -/
  one : manifestSlots.Reach NoFailure s → s.current ≠ none → s.attempts.length ≤ 1
  /-- When `Install` returns, its manifest is the one that is loaded. -/
  installed : ∀ m bytes s', s.phase = .installing m bytes .syncDir → s.step .proceed = some s' → Settled s' m
  /-- No recovery has failed. -/
  sound : ∀ err, s.phase ≠ .failed err
  /-- A recovery returns the manifest that is loaded; before the first manifest there is none. -/
  recovers : s.phase = .down →
    (∃ m s', load s.dir = .ok m ∧ manifestSlots.exec s recoverRun = some s' ∧ Settled s' m) ∨
      s.current = none ∧ load s.dir = .error .notExist ∧ s.step .recover = some { s with phase := .idle }
  /-- An `Install` of the next generation then returns. -/
  installs : ∀ m, s.phase = .idle → m.Fits → m.Encodable → m.generation = nextGeneration s.current →
    ∃ s', manifestSlots.exec s (s.installRun m) = some s' ∧ Settled s' m

/-- **Manifest installs are atomic**, in every state that installs, failures, crashes and recoveries lead to. -/
theorem manifest_install_atomic {s : SlotState} (h : manifestSlots.Reachable s) : Atomic s := by
  have hsound := SlotsSound.reachable h
  refine ⟨hsound.loadsOne, hsound.loadsOne_crash, hsound.attempts, fun hrun => (OneAttempt.reachable hrun).one,
    fun m bytes s' hphase hs => ?_, fun err hphase => ?_, fun hdown => ?_,
    fun m hidle hfits hencodable hgeneration => hsound.installs hidle hfits hencodable hgeneration⟩
  · obtain rfl : ⟨s.dir.sync, .idle, some m, []⟩ = s' := by
      have hproceed : s.proceed = some s' := hs
      rw [SlotState.proceed, hphase] at hproceed
      exact some.inj hproceed
    exact ⟨rfl, rfl, rfl, (hsound.step hs).durable rfl rfl⟩
  · have hphaseOk := hsound.phase
    rw [PhaseOk, hphase] at hphaseOk
    exact hphaseOk
  · have hloaded : ∀ m, load s.dir = .ok m → ∃ m s', load s.dir = .ok m ∧
        manifestSlots.exec s recoverRun = some s' ∧ Settled s' m := by
      intro m hload
      obtain ⟨s', hrun, hsettled⟩ := hsound.recovers hdown hload
      exact ⟨m, s', hload, hrun, hsettled⟩
    rcases hsound.loadsOne with hcurrent | ⟨a, -, hload⟩
    · cases hc : s.current with
      | some g =>
        rw [hc] at hcurrent
        exact .inl (hloaded g hcurrent)
      | none =>
        rw [hc] at hcurrent
        have hnone : load s.dir = .error .notExist := hcurrent
        refine .inr ⟨rfl, hnone, ?_⟩
        show s.recover = _
        rw [SlotState.recover, hdown, hnone]
    · exact .inl (hloaded a hload)

end Safety

/-! ## §11 — A run -/

namespace Demo

/-- A new store. -/
def first : Manifest := initialManifest (.ofByte 1) (.ofByte 2) .defaults

/-- The next generation, with another range of identifiers. -/
def second (reservedIDHigh : Nat) : Manifest := { first with generation := 2, reservedIDHigh := reservedIDHigh }

/-- One manifest is installed, the next one is renamed, and a crash loses the name. -/
def crashedInstall : List SlotEvent :=
  [.install first, .proceed, .proceed, .write 384, .proceed, .proceed, .proceed,
    .install (second 1000), .proceed, .proceed, .write 100, .write 284, .proceed, .proceed,
    .crash ⟨fun _ => 1, fun _ => 0, fun _ => 0⟩]

end Demo

open Demo in
/-- **A crash inside of an `Install`, the recovery and the next `Install`.** -/
theorem manifest_install_atomic_demo : ∃ s s' s'', manifestSlots.Reachable s ∧ s.current = some first ∧
    s.attempts = [second 1000] ∧ load s.dir = .ok first ∧ manifestSlots.exec s recoverRun = some s' ∧ Settled s' first ∧
    manifestSlots.exec s' (s'.installRun (second 2000)) = some s'' ∧ Settled s'' (second 2000) := by
  obtain ⟨s, hrun, hfacts⟩ := map_eq_some_iff.mp
    (show (manifestSlots.exec ⟨.empty, .idle, none, []⟩ crashedInstall).map (fun s =>
      (s.phase, s.current, s.attempts, (s.dir.finals 0).current)) =
      some (.down, some first, [second 1000], none) by decide +kernel)
  obtain ⟨hdown, hcurrent, hattempts, hlost⟩ := by simpa only [Prod.mk.injEq] using hfacts
  have hreach : manifestSlots.Reachable s :=
    (Machine.Reach.start rfl).exec crashedInstall (fun _ _ _ => trivial) hrun
  have hatomic := manifest_install_atomic hreach
  have hload : load s.dir = .ok first := by
    rcases hatomic.loads with hload | ⟨a, ha, hload⟩
    · rwa [hcurrent] at hload
    · -- the file of the second manifest has no name any more
      have hsound := SlotsSound.reachable hreach
      rw [hattempts, mem_singleton] at ha
      subst ha
      obtain ⟨i, hi, -⟩ := (hsound.dir.loaded hsound.attempts hload 0).holds (g := second 1000)
      cases hlost.symm.trans hi
  obtain ⟨m, s', hm, hrecover, hsettled⟩ := (hatomic.recovers hdown).resolve_right fun hnone =>
    (nomatch hload.symm.trans hnone.2.1)
  obtain rfl := Except.ok.inj (hload.symm.trans hm)
  have hreach' : manifestSlots.Reachable s' := hreach.exec recoverRun (fun _ _ _ => trivial) hrecover
  obtain ⟨s'', hinstall, hsettled'⟩ := (manifest_install_atomic hreach').installs (second 2000) hsettled.phase
    (by decide +kernel) (by decide +kernel) (by rw [hsettled.current]; rfl)
  exact ⟨s, s', s'', hreach, hcurrent, hattempts, hload, hrecover, hsettled, hinstall, hsettled'⟩

end Ridstore.StoreCatalog
