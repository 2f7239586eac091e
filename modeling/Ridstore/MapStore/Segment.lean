import Ridstore.Lib.Durable
import Ridstore.MapStore.Node

/-
# Ridstore.MapStore.Segment — the segment files of the mapping store

A segment file is a header, the nodes appended to it and, once it is sealed, a footer.  Files are kept as
these pieces with their sizes and not as bytes: the codecs give back what was written, and a piece of which
only the first bytes are there is told from a whole one by its size or its checksum.
-/

namespace Ridstore.MapStore

open Lib List

/-! ## §1 — Headers, summaries and files -/

/-- `SegmentHeader`; the identity of the store is left out. -/
structure SegmentHeader where
  segmentID : Nat
  previousSegment : Nat
  segmentSize : Nat
  deriving DecidableEq, Repr

/-- `CatalogSnapshot.headerFor`. -/
def headerFor (segmentSize id : Nat) : SegmentHeader := ⟨id, id - 1, segmentSize⟩

/-- `SegmentSummary`, also the content of a footer. -/
structure SegmentSummary where
  segmentID : Nat
  validEnd : Nat
  firstSeq : Nat
  lastSeq : Nat
  nodeCount : Nat
  deriving DecidableEq, Repr

namespace SegmentSummary

/-- The summary of a segment without nodes. -/
def empty (id : Nat) : SegmentSummary := ⟨id, segmentHeaderSize, 0, 0, 0⟩

/-- One more node. -/
def push (s : SegmentSummary) (n : Node) : SegmentSummary :=
  { s with
    firstSeq := if s.nodeCount = 0 then n.nodeSeq else s.firstSeq
    lastSeq := n.nodeSeq, nodeCount := s.nodeCount + 1, validEnd := s.validEnd + n.physicalSize }

/-- `validSegmentFooter`. -/
def validFooter (s : SegmentSummary) : Bool :=
  s.segmentID ≠ 0 && segmentHeaderSize ≤ s.validEnd && s.validEnd % alignment = 0 &&
    if s.nodeCount = 0 then s.validEnd = segmentHeaderSize && s.firstSeq = 0 && s.lastSeq = 0
    else s.firstSeq ≠ 0 && s.firstSeq ≤ s.lastSeq && s.lastSeq - s.firstSeq + 1 = s.nodeCount

/-- `SegmentSummary.valid`. -/
def valid (s : SegmentSummary) (segmentSize : Nat) : Bool :=
  s.validFooter && s.validEnd + segmentFooterSize ≤ segmentSize

end SegmentSummary

/-- What is written to a segment file at a time. -/
inductive Piece
  | header (h : SegmentHeader)
  | node (n : Node)
  | footer (s : SegmentSummary)

def Piece.size : Piece → Nat
  | .header _ => segmentHeaderSize
  | .node n => n.physicalSize
  | .footer _ => segmentFooterSize

/-- A segment file: its whole pieces, the torn one at its end, and how many bytes its last sync covers. -/
structure File where
  pieces : List Piece
  torn : Option (Piece × Nat)
  synced : Nat

namespace File

/-- A file that has only just been created. -/
def empty : File := ⟨[], none, 0⟩

/-- The size of the file in bytes. -/
def size (f : File) : Nat := bytes Piece.size f.pieces + (f.torn.map Prod.snd).getD 0

def append (f : File) (p : Piece) : File := { f with pieces := f.pieces ++ [p] }

def sync (f : File) : File := { f with synced := f.size }

/-- `Truncate` to the whole pieces. -/
def truncate (f : File) : File := { f with torn := none }

/-- A crash keeps the synced bytes and any number of the later ones. -/
def crash (f : File) (keep : Nat) : File :=
  let n := max f.synced keep
  if bytes Piece.size f.pieces ≤ n then f.sync
  else File.sync ⟨whole Piece.size f.pieces n, Lib.torn Piece.size f.pieces n, 0⟩

end File

/-! ## §2 — Opening a file -/

section Scan

variable (header : SegmentHeader) (endOffset : Nat) (root : MapAddr)

/-- The end of a scan that finds a node cut short: it may be dropped unless the root is there. -/
def partialTail (acc : SegmentSummary) : Except StoreError (SegmentSummary × Bool) :=
  if root.segmentID = header.segmentID ∧ acc.validEnd ≤ root.offset then .error .corrupt else .ok (acc, true)

/-- One turn of `scanNodesWithVisitor`: the node that is found, or the result of the scan. -/
def scanNext (acc : SegmentSummary) (next : Option Piece) (rest : Option (Piece × Nat)) :
    Except (Except StoreError (SegmentSummary × Bool)) Node :=
  let remaining := endOffset - acc.validEnd
  let room := header.segmentSize - segmentFooterSize - acc.validEnd
  if endOffset ≤ acc.validEnd then .error (.ok (acc, false))
  else if remaining < nodeHeaderSize then .error (partialTail header root acc)
  else
    match next, rest with
    | some (.node n), _ =>
      if room < n.physicalSize then .error (.error .corrupt)
      else if remaining < n.physicalSize then .error (partialTail header root acc)
      else if acc.nodeCount ≠ 0 ∧ n.nodeSeq ≠ acc.lastSeq + 1 then .error (.error .corrupt)
      else .ok n
    -- The header of a torn node is whole here, and its size exceeds what is left of the file.
    | none, some (.node n, _) =>
      if room < n.physicalSize then .error (.error .corrupt)
      else if remaining < n.physicalSize then .error (partialTail header root acc)
      else .error (.error .invalid)
    | none, none => .error (.error .invalid)
    | _, _ => .error (.error .corrupt)

/-- The loop of `scanNodesWithVisitor` over the pieces after the header. -/
def scanFrom (rest : Option (Piece × Nat)) :
    SegmentSummary → List Piece → Except StoreError (SegmentSummary × Bool)
  | acc, [] =>
    match scanNext header endOffset root acc none rest with
    | .error result => result
    | .ok _ => .error .invalid
  | acc, p :: more =>
    match scanNext header endOffset root acc (some p) rest with
    | .error result => result
    | .ok n => scanFrom rest (acc.push n) more

end Scan

namespace File

variable (f : File)

/-- **`scanNodes`**: the summary of the nodes up to an offset, and whether the last one is cut short. -/
def scanNodes (header : SegmentHeader) (endOffset : Nat) (root : MapAddr) :
    Except StoreError (SegmentSummary × Bool) :=
  scanFrom header endOffset root f.torn (SegmentSummary.empty header.segmentID) (f.pieces.drop 1)

/-- `verifyHeader`. -/
def verifyHeader (expected : SegmentHeader) : Except StoreError Unit :=
  match f.pieces with
  | .header h :: _ => if h = expected then .ok () else .error .corrupt
  | _ => .error .corrupt

/-- The footer found at an offset. -/
def footerAt (offset : Nat) : Except StoreError SegmentSummary :=
  match pieceAt Piece.size f.pieces offset with
  | some (.footer s) => .ok s
  | _ => .error .corrupt

/-- `openSealed`, given the file. -/
def openSealed (expected : SegmentHeader) (validEnd : Nat) : Except StoreError SegmentSummary := do
  if f.size ≠ validEnd + segmentFooterSize then throw .corrupt
  f.verifyHeader expected
  let footer ← f.footerAt validEnd
  if footer.segmentID ≠ expected.segmentID ∨ footer.validEnd ≠ validEnd then throw .corrupt
  let (actual, _) ← f.scanNodes expected validEnd ⟨0⟩
  if actual ≠ footer then throw .corrupt
  return actual

/-- `openActive` up to the repair, given the file. -/
def openActive (expected : SegmentHeader) (root : MapAddr) : Except StoreError (SegmentSummary × Bool) := do
  f.verifyHeader expected
  if f.size < segmentHeaderSize ∨ expected.segmentSize - segmentFooterSize < f.size then throw .corrupt
  f.scanNodes expected f.size root

/-- `readNodeAt`. -/
def readNodeAt (validEnd offset : Nat) : Except StoreError Node :=
  if validEnd < offset ∨ validEnd - offset < nodeHeaderSize then .error .invalid
  else
    match pieceAt Piece.size f.pieces offset with
    | some (.node n) => if validEnd - offset < n.physicalSize then .error .corrupt else .ok n
    | _ => .error .corrupt

end File

/-! ## §3 — What a scan finds -/

/-- The nodes can follow those of a summary: their sequence numbers count up by one. -/
def Follows : SegmentSummary → List Node → Prop
  | _, [] => True
  | acc, n :: rest => (acc.nodeCount = 0 ∨ n.nodeSeq = acc.lastSeq + 1) ∧ Follows (acc.push n) rest

/-- The bytes of a list of nodes. -/
def nodeBytes (nodes : List Node) : Nat := bytes Piece.size (nodes.map .node)

/-- The summary of a segment with these nodes. -/
def summaryOf (id : Nat) (nodes : List Node) : SegmentSummary := nodes.foldl .push (.empty id)

section Summary

variable {acc : SegmentSummary} {nodes more : List Node} {n : Node} {id : Nat}

@[simp] theorem nodeBytes_nil : nodeBytes [] = 0 := rfl

@[simp] theorem nodeBytes_cons : nodeBytes (n :: nodes) = n.physicalSize + nodeBytes nodes := by
  simp [nodeBytes, Piece.size]

@[simp] theorem nodeBytes_append : nodeBytes (nodes ++ more) = nodeBytes nodes + nodeBytes more := by
  simp [nodeBytes]

theorem foldl_push_validEnd (acc : SegmentSummary) (nodes : List Node) :
    (nodes.foldl .push acc).validEnd = acc.validEnd + nodeBytes nodes := by
  induction nodes generalizing acc with
  | nil => rfl
  | cons n rest ih =>
    rw [foldl_cons, ih, nodeBytes_cons, ← Nat.add_assoc]
    rfl

theorem foldl_push_nodeCount (acc : SegmentSummary) (nodes : List Node) :
    (nodes.foldl .push acc).nodeCount = acc.nodeCount + nodes.length := by
  induction nodes generalizing acc with
  | nil => rfl
  | cons n rest ih =>
    rw [foldl_cons, ih, length_cons]
    show acc.nodeCount + 1 + rest.length = _
    omega

theorem foldl_push_segmentID (acc : SegmentSummary) (nodes : List Node) :
    (nodes.foldl .push acc).segmentID = acc.segmentID := by
  induction nodes generalizing acc with
  | nil => rfl
  | cons n rest ih => rw [foldl_cons, ih, SegmentSummary.push]

@[simp] theorem summaryOf_validEnd : (summaryOf id nodes).validEnd = segmentHeaderSize + nodeBytes nodes :=
  foldl_push_validEnd _ _

@[simp] theorem summaryOf_nodeCount : (summaryOf id nodes).nodeCount = nodes.length := by
  rw [summaryOf, foldl_push_nodeCount]
  exact Nat.zero_add _

@[simp] theorem summaryOf_segmentID : (summaryOf id nodes).segmentID = id :=
  foldl_push_segmentID (.empty id) nodes

theorem summaryOf_concat : summaryOf id (nodes ++ [n]) = (summaryOf id nodes).push n := by
  rw [summaryOf, foldl_append]
  rfl

theorem follows_append : Follows acc (nodes ++ more) ↔ Follows acc nodes ∧ Follows (nodes.foldl .push acc) more := by
  induction nodes generalizing acc with
  | nil => exact ⟨fun h => ⟨trivial, h⟩, fun h => h.2⟩
  | cons n rest ih =>
    rw [cons_append, Follows, ih, Follows, foldl_cons, and_assoc]

@[simp] theorem push_lastSeq : (acc.push n).lastSeq = n.nodeSeq := by
  rw [SegmentSummary.push]

/-- The sequence numbers of nodes that follow each other go up. -/
theorem Follows.le_lastSeq (h : Follows acc nodes) (hcount : acc.nodeCount ≠ 0) :
    acc.lastSeq ≤ (nodes.foldl .push acc).lastSeq ∧ ∀ n ∈ nodes, n.nodeSeq ≤ (nodes.foldl .push acc).lastSeq := by
  induction nodes generalizing acc with
  | nil => exact ⟨Nat.le_refl _, nofun⟩
  | cons n rest ih =>
    obtain ⟨hle, hrest⟩ := ih h.2 (Nat.succ_ne_zero _)
    rw [push_lastSeq] at hle
    have hnext : n.nodeSeq = acc.lastSeq + 1 := h.1.resolve_left hcount
    rw [foldl_cons]
    refine ⟨by omega, fun m hm => ?_⟩
    rcases mem_cons.mp hm with rfl | hm
    · exact hle
    · exact hrest m hm

theorem nodeSeq_le_summaryOf (h : Follows (.empty id) nodes) (hn : n ∈ nodes) :
    n.nodeSeq ≤ (summaryOf id nodes).lastSeq := by
  cases nodes with
  | nil => cases hn
  | cons m rest =>
    obtain ⟨hle, hrest⟩ := h.2.le_lastSeq (Nat.succ_ne_zero _)
    rw [push_lastSeq] at hle
    rw [summaryOf, foldl_cons]
    rcases mem_cons.mp hn with rfl | hn
    · exact hle
    · exact hrest n hn

/-- The last sequence number is that of a node. -/
theorem summaryOf_lastSeq (id : Nat) (hne : nodes ≠ []) : ∃ n ∈ nodes, (summaryOf id nodes).lastSeq = n.nodeSeq := by
  obtain ⟨front, last, rfl⟩ := eq_nil_or_concat nodes |>.resolve_left hne
  rw [concat_eq_append]
  refine ⟨last, mem_append_right _ mem_cons_self, ?_⟩
  rw [summaryOf_concat, push_lastSeq]

theorem foldl_push_firstSeq (hcount : acc.nodeCount ≠ 0) : (nodes.foldl .push acc).firstSeq = acc.firstSeq := by
  induction nodes generalizing acc with
  | nil => rfl
  | cons n rest ih =>
    rw [foldl_cons, ih (Nat.succ_ne_zero _), SegmentSummary.push]
    exact if_neg hcount

/-- And so is the first. -/
theorem summaryOf_firstSeq (id : Nat) (hne : nodes ≠ []) : ∃ n ∈ nodes, (summaryOf id nodes).firstSeq = n.nodeSeq := by
  cases nodes with
  | nil => exact absurd rfl hne
  | cons n rest =>
    refine ⟨n, mem_cons_self, ?_⟩
    rw [summaryOf, foldl_cons, foldl_push_firstSeq (Nat.succ_ne_zero _), SegmentSummary.push]
    rfl

theorem nodeHeaderSize_le_physicalSize (b : NodeBuild) : nodeHeaderSize ≤ b.physicalSize :=
  nodeHeaderSize_le_encodedNodeSize _ _

end Summary

section ScanSpec

variable {header : SegmentHeader} {endOffset : Nat} {root : MapAddr} {acc : SegmentSummary} {nodes : List Node}
  {rest : Option (Piece × Nat)}

variable {more : List Piece}

/-- A scan takes a node that follows and lies before its end. -/
theorem scanFrom_node {n : Node} (hfollows : acc.nodeCount = 0 ∨ n.nodeSeq = acc.lastSeq + 1)
    (hend : acc.validEnd + n.physicalSize ≤ endOffset) (hroom : endOffset + segmentFooterSize ≤ header.segmentSize) :
    scanFrom header endOffset root rest acc (.node n :: more) =
      scanFrom header endOffset root rest (acc.push n) more := by
  have hsize := nodeHeaderSize_le_physicalSize n.toNodeBuild
  have hpos : 0 < nodeHeaderSize := by decide
  have hseq : ¬ (acc.nodeCount ≠ 0 ∧ n.nodeSeq ≠ acc.lastSeq + 1) := by
    rintro ⟨hcount, hne⟩
    exact hfollows.elim hcount hne
  have hnext : scanNext header endOffset root acc (some (.node n)) rest = .ok n := by
    simp only [scanNext]
    rw [if_neg (by omega), if_neg (by omega), if_neg (by omega), if_neg (by omega), if_neg hseq]
  rw [scanFrom, hnext]

/-- A scan stops at its end. -/
theorem scanFrom_end (hend : endOffset ≤ acc.validEnd) :
    scanFrom header endOffset root rest acc more = .ok (acc, false) := by
  cases more with
  | _ => simp only [scanFrom, scanNext, if_pos hend]

/-- **A scan finds the nodes before its end**, whatever comes after it. -/
theorem scanFrom_nodes (hfollows : Follows acc nodes) (hend : endOffset = acc.validEnd + nodeBytes nodes)
    (hroom : endOffset + segmentFooterSize ≤ header.segmentSize) :
    scanFrom header endOffset root rest acc (nodes.map .node ++ more) = .ok (nodes.foldl .push acc, false) := by
  induction nodes generalizing acc with
  | nil => exact scanFrom_end (by rw [hend]; simp)
  | cons n nodes ih =>
    rw [nodeBytes_cons] at hend
    rw [map_cons, cons_append, scanFrom_node hfollows.1 (by omega) hroom, foldl_cons]
    refine ih hfollows.2 ?_
    show endOffset = acc.validEnd + n.physicalSize + nodeBytes nodes
    omega

/-- The first bytes of a piece at the end of a file, too few to be one. -/
def TornAfter (header : SegmentHeader) (validEnd : Nat) : Option (Piece × Nat) → Prop
  | none => True
  | some (p, k) => 0 < k ∧ k < p.size ∧
      match p with
      | .header _ => False
      | .node n => validEnd + n.physicalSize + segmentFooterSize ≤ header.segmentSize
      | .footer _ => True

/-- **A scan to the end of a torn file** drops the torn piece, unless the root should be there. -/
theorem scanFrom_torn {p : Piece} {k : Nat} (hfollows : Follows acc nodes)
    (htorn : TornAfter header (acc.validEnd + nodeBytes nodes) (some (p, k)))
    (hend : endOffset = acc.validEnd + nodeBytes nodes + k)
    (hroom : endOffset + segmentFooterSize ≤ header.segmentSize)
    (hroot : root.segmentID = header.segmentID → root.offset < acc.validEnd + nodeBytes nodes) :
    scanFrom header endOffset root (some (p, k)) acc (nodes.map .node) = .ok (nodes.foldl .push acc, true) := by
  induction nodes generalizing acc with
  | nil =>
    rw [nodeBytes_nil, Nat.add_zero] at hend hroot htorn
    obtain ⟨hpos, hlt, hshape⟩ := htorn
    have htail : partialTail header root acc = .ok (acc, true) := by
      rw [partialTail, if_neg]
      rintro ⟨hsame, hle⟩
      exact absurd (hroot hsame) (Nat.not_lt.mpr hle)
    have hnext : scanNext header endOffset root acc none (some (p, k)) = .error (.ok (acc, true)) := by
      rw [← htail]
      cases p with
      | header h => exact hshape.elim
      | node n =>
        have hlt' : k < n.physicalSize := hlt
        have hfit : acc.validEnd + n.physicalSize + segmentFooterSize ≤ header.segmentSize := hshape
        simp only [scanNext]
        rw [if_neg (by omega)]
        split
        · rfl
        · rw [if_neg (by omega), if_pos (by omega)]
      | footer sum =>
        -- What is left of a footer is shorter than the header of a node.
        have hlt' : k < nodeHeaderSize := hlt
        simp only [scanNext]
        rw [if_neg (by omega), if_pos (by omega)]
    rw [map_nil, scanFrom, hnext]
    rfl
  | cons n nodes ih =>
    rw [nodeBytes_cons] at hend hroot htorn
    have hassoc : (acc.push n).validEnd + nodeBytes nodes = acc.validEnd + (n.physicalSize + nodeBytes nodes) :=
      Nat.add_assoc _ _ _
    rw [map_cons, scanFrom_node hfollows.1 (by omega) hroom, foldl_cons]
    refine ih hfollows.2 ?_ ?_ ?_
    · rw [hassoc]; exact htorn
    · rw [hassoc]; exact hend
    · rw [hassoc]; exact hroot

end ScanSpec

/-! ## §4 — The shapes of a segment file -/

theorem Piece.size_pos (p : Piece) : 0 < p.size := by
  cases p with
  | node n => exact Nat.lt_of_lt_of_le (Nat.zero_lt_succ _) (nodeHeaderSize_le_physicalSize _)
  | _ => exact Nat.zero_lt_succ _

/-- The node that a piece is. -/
def Piece.node? : Piece → Option Node
  | .node n => some n
  | _ => none

namespace File

/-- The nodes of a file. -/
def nodes (f : File) : List Node := f.pieces.filterMap Piece.node?

/-- A header and nodes, possibly with a torn piece after them. -/
structure Plain (f : File) (h : SegmentHeader) : Prop where
  pieces : f.pieces = .header h :: f.nodes.map .node

/-- A header, nodes and their footer. -/
structure Footed (f : File) (h : SegmentHeader) : Prop where
  pieces : f.pieces = .header h :: (f.nodes.map .node ++ [.footer (summaryOf h.segmentID f.nodes)])
  torn : f.torn = none

variable {f : File} {h : SegmentHeader} {root : MapAddr} {l : List Node} {n : Node}

theorem filterMap_node (l : List Node) : (l.map Piece.node).filterMap Piece.node? = l := by
  rw [filterMap_map]
  exact filterMap_some

theorem nodes_of_plain (hp : f.pieces = .header h :: l.map .node) : f.nodes = l := by
  rw [File.nodes, hp, filterMap_cons_none rfl, filterMap_node]

theorem plain_of_pieces (hp : f.pieces = .header h :: l.map .node) : f.Plain h :=
  ⟨by rw [nodes_of_plain hp, hp]⟩

theorem Plain.bytes (hf : f.Plain h) : bytes Piece.size f.pieces = segmentHeaderSize + nodeBytes f.nodes := by
  rw [hf.pieces, bytes_cons]
  rfl

theorem Plain.size (hf : f.Plain h) (htorn : f.torn = none) : f.size = segmentHeaderSize + nodeBytes f.nodes := by
  rw [File.size, hf.bytes, htorn]
  rfl

theorem Plain.verifyHeader (hf : f.Plain h) : f.verifyHeader h = .ok () := by
  simp only [File.verifyHeader, hf.pieces, if_true]

theorem Plain.drop (hf : f.Plain h) : f.pieces.drop 1 = f.nodes.map .node ++ [] := by
  rw [hf.pieces, drop_one, tail_cons, append_nil]

/-- **A file of nodes opens** as an active segment with nothing to repair. -/
theorem Plain.openActive (hf : f.Plain h) (htorn : f.torn = none) (hfollows : Follows (.empty h.segmentID) f.nodes)
    (hroom : f.size + segmentFooterSize ≤ h.segmentSize) :
    f.openActive h root = .ok (summaryOf h.segmentID f.nodes, false) := by
  have hsize := hf.size htorn
  have hscan : f.scanNodes h f.size root = .ok (summaryOf h.segmentID f.nodes, false) := by
    rw [File.scanNodes, hf.drop]
    exact scanFrom_nodes hfollows hsize hroom
  have hbounds : ¬ (f.size < segmentHeaderSize ∨ h.segmentSize - segmentFooterSize < f.size) := by omega
  simp only [File.openActive, hf.verifyHeader, bind, Except.bind, if_neg hbounds, hscan]

/-- **A torn file opens** as an active segment with its whole nodes, unless the root should be in the rest. -/
theorem Plain.openActive_torn (hf : f.Plain h) (htorn : f.torn ≠ none)
    (hshape : TornAfter h (segmentHeaderSize + nodeBytes f.nodes) f.torn)
    (hfollows : Follows (.empty h.segmentID) f.nodes) (hroom : f.size + segmentFooterSize ≤ h.segmentSize)
    (hroot : root.segmentID = h.segmentID → root.offset < segmentHeaderSize + nodeBytes f.nodes) :
    f.openActive h root = .ok (summaryOf h.segmentID f.nodes, true) := by
  obtain ⟨⟨p, k⟩, hp⟩ := Option.ne_none_iff_exists'.mp htorn
  have hsize : f.size = segmentHeaderSize + nodeBytes f.nodes + k := by
    rw [File.size, hf.bytes, hp]
    rfl
  have hscan : f.scanNodes h f.size root = .ok (summaryOf h.segmentID f.nodes, true) := by
    rw [File.scanNodes, hf.drop, append_nil, hp]
    rw [hp] at hshape
    exact scanFrom_torn hfollows hshape hsize hroom hroot
  have hbounds : ¬ (f.size < segmentHeaderSize ∨ h.segmentSize - segmentFooterSize < f.size) := by omega
  simp only [File.openActive, hf.verifyHeader, bind, Except.bind, if_neg hbounds, hscan]

theorem Footed.verifyHeader (hf : f.Footed h) : f.verifyHeader h = .ok () := by
  simp only [File.verifyHeader, hf.pieces, if_true]

theorem Footed.bytes (hf : f.Footed h) :
    bytes Piece.size f.pieces = segmentHeaderSize + nodeBytes f.nodes + segmentFooterSize := by
  rw [hf.pieces, bytes_cons, bytes_append, ← Nat.add_assoc]
  rfl

theorem Footed.size (hf : f.Footed h) : f.size = segmentHeaderSize + nodeBytes f.nodes + segmentFooterSize := by
  rw [File.size, hf.bytes, hf.torn]
  rfl

theorem Footed.footerAt (hf : f.Footed h) :
    f.footerAt (segmentHeaderSize + nodeBytes f.nodes) = .ok (summaryOf h.segmentID f.nodes) := by
  have hat : pieceAt Piece.size f.pieces (segmentHeaderSize + nodeBytes f.nodes) =
      some (.footer (summaryOf h.segmentID f.nodes)) := by
    have hbytes : Lib.bytes Piece.size (.header h :: f.nodes.map .node) = segmentHeaderSize + nodeBytes f.nodes := by
      rw [bytes_cons]
      rfl
    rw [hf.pieces, ← hbytes, ← cons_append]
    exact pieceAt_bytes fun q _ => q.size_pos
  simp only [File.footerAt, hat]

/-- The nodes of a footed file are found by the scan up to its footer. -/
theorem Footed.scanNodes (hf : f.Footed h) (hfollows : Follows (.empty h.segmentID) f.nodes)
    (hroom : segmentHeaderSize + nodeBytes f.nodes + segmentFooterSize ≤ h.segmentSize) :
    f.scanNodes h (segmentHeaderSize + nodeBytes f.nodes) root = .ok (summaryOf h.segmentID f.nodes, false) := by
  rw [File.scanNodes, hf.pieces, drop_one, tail_cons]
  exact scanFrom_nodes hfollows rfl hroom

/-- **A footed file opens** as a sealed segment. -/
theorem Footed.openSealed (hf : f.Footed h) (hfollows : Follows (.empty h.segmentID) f.nodes)
    (hroom : segmentHeaderSize + nodeBytes f.nodes + segmentFooterSize ≤ h.segmentSize) :
    f.openSealed h (segmentHeaderSize + nodeBytes f.nodes) = .ok (summaryOf h.segmentID f.nodes) := by
  simp only [File.openSealed, hf.size, ne_eq, not_true_eq_false, if_false, hf.verifyHeader, hf.footerAt,
    summaryOf_segmentID, summaryOf_validEnd, or_self, hf.scanNodes hfollows hroom, bind, Except.bind, pure,
    Except.pure]

/-- The node a read returns is the one found at the offset. -/
theorem readNodeAt_ok {validEnd offset : Nat} (hat : pieceAt Piece.size f.pieces offset = some (.node n))
    (hle : offset + n.physicalSize ≤ validEnd) : f.readNodeAt validEnd offset = .ok n := by
  have hsize := nodeHeaderSize_le_physicalSize n.toNodeBuild
  have hpos : 0 < nodeHeaderSize := by decide
  rw [File.readNodeAt, if_neg (by omega), hat]
  exact if_neg (by omega)

/-! ## §5 — What a crash leaves of a file -/

variable {keep offset : Nat} {p : Piece}

@[simp] theorem nodes_truncate : f.truncate.nodes = f.nodes := rfl

@[simp] theorem nodes_append_node : (f.append (.node n)).nodes = f.nodes ++ [n] := by
  rw [File.nodes, File.append, filterMap_append]
  rfl

@[simp] theorem nodes_append_footer {sum : SegmentSummary} : (f.append (.footer sum)).nodes = f.nodes := by
  rw [File.nodes, File.append, filterMap_append]
  exact append_nil _

theorem bytes_le_size : Lib.bytes Piece.size f.pieces ≤ f.size := Nat.le_add_right _ _

/-- A crash leaves all of the file or its first `m` bytes, the synced ones among them. -/
theorem crash_cases (f : File) (keep : Nat) :
    f.crash keep = f.sync ∨
      ∃ m, f.synced ≤ m ∧ m < Lib.bytes Piece.size f.pieces ∧
        f.crash keep = File.sync ⟨whole Piece.size f.pieces m, Lib.torn Piece.size f.pieces m, 0⟩ := by
  by_cases hall : Lib.bytes Piece.size f.pieces ≤ max f.synced keep
  · exact .inl (if_pos hall)
  · exact .inr ⟨max f.synced keep, Nat.le_max_left _ _, Nat.lt_of_not_le hall, if_neg hall⟩

@[simp] theorem crash_synced : (f.crash keep).synced = (f.crash keep).size := by
  rcases f.crash_cases keep with heq | ⟨m, -, -, heq⟩
  · rw [heq]; rfl
  · rw [heq]; rfl

/-- A file with all its bytes synced does not change. -/
theorem crash_of_synced (hsynced : f.synced = f.size) : f.crash keep = f := by
  rcases f.crash_cases keep with heq | ⟨m, hle, hlt, -⟩
  · rw [heq, File.sync, ← hsynced]
  · have hbytes : Lib.bytes Piece.size f.pieces ≤ f.size := bytes_le_size
    omega

theorem crash_isPrefix : (f.crash keep).pieces <+: f.pieces := by
  rcases f.crash_cases keep with heq | ⟨m, -, -, heq⟩
  · rw [heq]
    exact prefix_rfl
  · rw [heq]
    exact whole_isPrefix _ _

/-- The synced pieces survive. -/
theorem crash_pieceAt (hat : pieceAt Piece.size f.pieces offset = some p) (hle : offset + p.size ≤ f.synced) :
    pieceAt Piece.size (f.crash keep).pieces offset = some p := by
  rcases f.crash_cases keep with heq | ⟨m, hm, -, heq⟩
  · rw [heq]
    exact hat
  · rw [heq]
    exact pieceAt_whole hat (by omega)

/-- The size of a file that is cut off. -/
theorem size_cut {pieces : List Piece} {m : Nat} (hm : m ≤ Lib.bytes Piece.size pieces) :
    File.size (File.sync ⟨whole Piece.size pieces m, Lib.torn Piece.size pieces m, 0⟩) = m := by
  cases hpk : Lib.torn Piece.size pieces m with
  | none => exact bytes_whole hpk hm
  | some pk =>
    obtain ⟨-, -, -, -, hn⟩ := torn_eq_some hpk
    exact hn.symm

theorem whole_nodes (l : List Node) (m : Nat) : ∃ l', l' <+: l ∧ whole Piece.size (l.map .node) m = l'.map .node := by
  have hpre : whole Piece.size (l.map .node) m <+: l.map .node := whole_isPrefix _ _
  rw [prefix_iff_eq_take] at hpre
  refine ⟨l.take (whole Piece.size (l.map .node) m).length, List.take_prefix _ _, ?_⟩
  rw [map_take]
  exact hpre

/-- **A crash of an active segment** leaves its first nodes and perhaps some bytes of the next one. -/
theorem Plain.crash (hf : f.Plain h) (htorn : f.torn = none) (hsynced : segmentHeaderSize ≤ f.synced)
    (hroom : f.size + segmentFooterSize ≤ h.segmentSize) (keep : Nat) :
    (f.crash keep).Plain h ∧ (f.crash keep).nodes <+: f.nodes ∧
      TornAfter h (segmentHeaderSize + nodeBytes (f.crash keep).nodes) (f.crash keep).torn ∧
      (f.crash keep).size ≤ f.size := by
  rcases f.crash_cases keep with heq | ⟨m, hm, hlt, heq⟩
  · rw [heq]
    exact ⟨⟨hf.pieces⟩, prefix_rfl, by rw [File.sync, htorn]; trivial, Nat.le_refl _⟩
  · rw [hf.bytes] at hlt
    have hsize := hf.size htorn
    -- The header is synced, so that only nodes are cut off.
    have hheader : Lib.bytes Piece.size [.header h] = segmentHeaderSize := rfl
    have hle : Lib.bytes Piece.size [.header h] ≤ m := by omega
    have hpieces : f.pieces = [.header h] ++ f.nodes.map .node := hf.pieces
    obtain ⟨l', hpre, hwhole⟩ := whole_nodes f.nodes (m - segmentHeaderSize)
    have hw : whole Piece.size f.pieces m = .header h :: l'.map .node := by
      rw [hpieces, whole_append_of_le hle, hheader, hwhole]
      rfl
    have ht : Lib.torn Piece.size f.pieces m = Lib.torn Piece.size (f.nodes.map .node) (m - segmentHeaderSize) := by
      rw [hpieces, torn_append_of_le hle, hheader]
    have hcrash : (f.crash keep).pieces = .header h :: l'.map .node := by
      rw [heq]
      exact hw
    have hnodes := nodes_of_plain hcrash
    refine ⟨plain_of_pieces hcrash, by rw [hnodes]; exact hpre, ?_, ?_⟩
    · rw [hnodes]
      have htorn' : (f.crash keep).torn = Lib.torn Piece.size (f.nodes.map .node) (m - segmentHeaderSize) := by
        rw [heq]
        exact ht
      rw [htorn']
      cases hcut : Lib.torn Piece.size (f.nodes.map .node) (m - segmentHeaderSize) with
      | none => trivial
      | some pk =>
        obtain ⟨p, k⟩ := pk
        obtain ⟨rest, hsplit, hpos, hk, -⟩ := torn_eq_some hcut
        have hmem : p ∈ f.nodes.map Piece.node := by
          rw [hsplit]
          exact mem_append_right _ mem_cons_self
        obtain ⟨n, -, rfl⟩ := mem_map.mp hmem
        refine ⟨hpos, hk, ?_⟩
        have hbytes := congrArg (Lib.bytes Piece.size) hsplit
        rw [bytes_append, bytes_cons, hwhole] at hbytes
        have h1 : nodeBytes f.nodes = nodeBytes l' + (n.physicalSize + Lib.bytes Piece.size rest) := hbytes
        omega
    · rw [heq, size_cut (by rw [hf.bytes]; omega)]
      omega

/-- **A crash of a segment that gets its footer** leaves its nodes and the footer or a part of it. -/
theorem Footed.crash (hf : f.Footed h) (hsynced : segmentHeaderSize + nodeBytes f.nodes ≤ f.synced) (keep : Nat) :
    (f.crash keep).nodes = f.nodes ∧
      (f.crash keep = f.sync ∨
        (f.crash keep).Plain h ∧ (f.crash keep).size < segmentHeaderSize + nodeBytes f.nodes + segmentFooterSize) := by
  rcases f.crash_cases keep with heq | ⟨m, hm, hlt, heq⟩
  · exact ⟨by rw [heq]; rfl, .inl heq⟩
  · rw [hf.bytes] at hlt
    have hbytes : Lib.bytes Piece.size (.header h :: f.nodes.map .node) = segmentHeaderSize + nodeBytes f.nodes := by
      rw [bytes_cons]
      rfl
    have hle : Lib.bytes Piece.size (.header h :: f.nodes.map .node) ≤ m := by omega
    have hpieces : f.pieces = (.header h :: f.nodes.map .node) ++ [.footer (summaryOf h.segmentID f.nodes)] :=
      hf.pieces
    have hcut : ¬ Piece.size (.footer (summaryOf h.segmentID f.nodes)) ≤ m - (segmentHeaderSize + nodeBytes f.nodes) := by
      show ¬ segmentFooterSize ≤ _
      omega
    have hcrash : (f.crash keep).pieces = .header h :: f.nodes.map .node := by
      rw [heq]
      show whole Piece.size f.pieces m = _
      rw [hpieces, whole_append_of_le hle, hbytes, whole, if_neg hcut, append_nil]
    have hnodes := nodes_of_plain hcrash
    refine ⟨hnodes, .inr ⟨plain_of_pieces hcrash, ?_⟩⟩
    rw [heq, size_cut (by rw [hf.bytes]; omega)]
    omega

end File

end Ridstore.MapStore
