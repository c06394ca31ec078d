import MetriEngine.Foundation.Checked
import MetriEngine.Storage.CsrEdges
import MetriEngine.Storage.Wire

/-!
# The graph zone as bytes

After a magic come the nodes of the hierarchy, each with twelve bytes of padding, and the edges
under their sources; zeros fill up to a multiple of 64 bytes. Neither the edges under their
targets nor the arrays are written: a reader adds the edges again and seals the zone.
-/
namespace MetriEngine.Storage.CsrGraph
open Foundation

def zone2Magic : List Byte := utf8 "MBFZ2CSR"

def readU32 : MbfReader ℕ := readLe 4 (corrupt "Unexpected EOF reading u32 in Zone 2")

def writeU32 (n : ℕ) : List Byte := leBytes 4 (n % 2 ^ 32)

/-! ### Nodes -/

/-- Every field is a word of its size. -/
structure EulerTreeNode.Fits (node : EulerTreeNode) : Prop where
  tin : node.tin < 2 ^ 32
  tout : node.tout < 2 ^ 32
  inheritedAttributeId : node.inheritedAttributeId < 2 ^ 32
  depth : node.depth < 2 ^ 16
  flags : node.flags < 2 ^ 16

/-- The sixteen bytes of a node, as `bytemuck` sees them on a machine with the low byte first. -/
def EulerTreeNode.bytesOf (node : EulerTreeNode) : List Byte :=
  leBytes 4 node.tin ++ leBytes 4 node.tout ++ leBytes 4 node.inheritedAttributeId ++
    leBytes 2 node.depth ++ leBytes 2 node.flags

def eulerEof : DomainError := corrupt "Unexpected EOF reading EulerTreeNode in Zone 2"

def writeEulerEntry (entry : ℕ × EulerTreeNode) : List Byte :=
  writeU32 entry.1 ++ List.replicate 12 0 ++ entry.2.bytesOf

/-- Every part asks for its own bytes; together they ask for the 28 that are asked for at once. -/
def readEulerEntry : MbfReader (ℕ × EulerTreeNode) := do
  let nodeId ← readU32
  let _pad ← takeBytes 12 eulerEof
  let tin ← readLe 4 eulerEof
  let tout ← readLe 4 eulerEof
  let inheritedAttributeId ← readLe 4 eulerEof
  let depth ← readLe 2 eulerEof
  let flags ← readLe 2 eulerEof
  return (nodeId, ⟨tin, tout, inheritedAttributeId, depth, flags⟩)

/-! ### Groups of edges -/

def writeGroup (group : RowAttr × List ℕ) : List Byte :=
  writeU32 (ofLex group.1).1 ++ leBytes 2 (ofLex group.1).2 ++ writeU32 group.2.length ++
    group.2.flatMap writeU32

def readGroup : MbfReader (RowAttr × List ℕ) := do
  let src ← readU32
  let attr ← readLe 2 (corrupt "Unexpected EOF reading attr_id in Zone 2")
  let tLen ← readU32
  let targets ← readMany readU32 tLen
  return (toLex (src, attr), targets)

/-! ### The zone -/

def rawBytes (z : ReferenceZone) : List Byte :=
  writeU32 z.eulerNodes.entries.length ++ writeU32 0 ++
    z.eulerNodes.entries.flatMap writeEulerEntry ++
      (writeU32 z.forwardCsr.entries.length ++ z.forwardCsr.entries.flatMap writeGroup)

def encodeZoneBinary (z : ReferenceZone) : List Byte :=
  MbfPartitionWireSnapshot.padTo64 (zone2Magic ++ rawBytes z)

def readRaw : MbfReader (List (ℕ × EulerTreeNode) × List (RowAttr × List ℕ)) := do
  let eulerCount ← readU32
  let _pad ← readU32
  let eulerNodes ← readMany readEulerEntry eulerCount
  let fwdGroupCount ← readU32
  let groups ← readMany readGroup fwdGroupCount
  return (eulerNodes, groups)

/-- The edges of a group, added one by one. -/
def addGroup (z : ReferenceZone) (group : RowAttr × List ℕ) : ReferenceZone :=
  group.2.foldl (fun z dst => z.addReferenceEdge (ofLex group.1).1 (ofLex group.1).2 dst) z

def zoneOf (raw : List (ℕ × EulerTreeNode) × List (RowAttr × List ℕ)) : ReferenceZone :=
  (raw.2.foldl addGroup
    { ReferenceZone.new with
      eulerNodes := (∅ : OrdMap ℕ EulerTreeNode).insertList raw.1 }).sealContiguousCsrArrays

def decodeZoneBinary (bytes : List Byte) : Except DomainError ReferenceZone :=
  if bytes.length < 16 ∨ bytes.take 8 ≠ zone2Magic then
    .error (corrupt "Invalid Zone 2 CSR binary magic header")
  else (readRaw (bytes.drop 8)).map fun r => zoneOf r.1

/-! ### Reading back what was written -/

theorem reads_u32 {n : ℕ} (h : n < 2 ^ 32) : Reads readU32 (writeU32 n) n := by
  rw [writeU32, Nat.mod_eq_of_lt h]
  exact reads_readLe _ (by simpa using h)

theorem reads_eulerEntry {entry : ℕ × EulerTreeNode} (hid : entry.1 < 2 ^ 32)
    (hfits : entry.2.Fits) : Reads readEulerEntry (writeEulerEntry entry) entry := by
  have hword : ∀ {x : ℕ}, x < 2 ^ 32 → Reads (readLe 4 eulerEof) (leBytes 4 x) x :=
    fun hx => reads_readLe _ (by simpa using hx)
  have hshort : ∀ {x : ℕ}, x < 2 ^ 16 → Reads (readLe 2 eulerEof) (leBytes 2 x) x :=
    fun hx => reads_readLe _ (by simpa using hx)
  have hpad : Reads (takeBytes 12 eulerEof) (List.replicate 12 0) (List.replicate 12 0) :=
    reads_takeBytes _ (List.length_replicate ..)
  have hbytes : writeEulerEntry entry = writeU32 entry.1 ++ (List.replicate 12 0 ++
      (leBytes 4 entry.2.tin ++ (leBytes 4 entry.2.tout ++ (leBytes 4 entry.2.inheritedAttributeId ++
        (leBytes 2 entry.2.depth ++ (leBytes 2 entry.2.flags ++ [])))))) := by
    simp only [writeEulerEntry, EulerTreeNode.bytesOf, List.append_assoc, List.append_nil]
  rw [hbytes]
  apply (reads_u32 hid).bind
  apply hpad.bind
  apply (hword hfits.tin).bind
  apply (hword hfits.tout).bind
  apply (hword hfits.inheritedAttributeId).bind
  apply (hshort hfits.depth).bind
  apply (hshort hfits.flags).bind
  exact Reads.pure _

/-- The numbers of a group fit their words. -/
structure GroupFits (group : RowAttr × List ℕ) : Prop where
  row : (ofLex group.1).1 < 2 ^ 32
  attr : (ofLex group.1).2 < 2 ^ 16
  length : group.2.length < 2 ^ 32
  targets : ∀ dst ∈ group.2, dst < 2 ^ 32

theorem reads_group {group : RowAttr × List ℕ} (h : GroupFits group) :
    Reads readGroup (writeGroup group) group := by
  have hattr : Reads (readLe 2 (corrupt "Unexpected EOF reading attr_id in Zone 2"))
      (leBytes 2 (ofLex group.1).2) (ofLex group.1).2 := reads_readLe _ (by simpa using h.attr)
  have htargets : Reads (readMany readU32 group.2.length) (group.2.flatMap writeU32) group.2 :=
    reads_readMany _ fun dst hdst => reads_u32 (h.targets dst hdst)
  have hbytes : writeGroup group = writeU32 (ofLex group.1).1 ++ (leBytes 2 (ofLex group.1).2 ++
      (writeU32 group.2.length ++ (group.2.flatMap writeU32 ++ []))) := by
    simp only [writeGroup, List.append_assoc, List.append_nil]
  rw [hbytes]
  apply (reads_u32 h.row).bind
  apply hattr.bind
  apply (reads_u32 h.length).bind
  apply htargets.bind
  exact Reads.pure _

/-- The numbers of a zone fit their words. -/
structure ZoneFits (z : ReferenceZone) : Prop where
  nodes : z.eulerNodes.entries.length < 2 ^ 32
  node : ∀ e ∈ z.eulerNodes.entries, e.1 < 2 ^ 32 ∧ e.2.Fits
  groups : z.forwardCsr.entries.length < 2 ^ 32
  group : ∀ g ∈ z.forwardCsr.entries, GroupFits g

theorem reads_raw {z : ReferenceZone} (h : ZoneFits z) :
    Reads readRaw (rawBytes z) (z.eulerNodes.entries, z.forwardCsr.entries) := by
  have hnodes : Reads (readMany readEulerEntry z.eulerNodes.entries.length)
      (z.eulerNodes.entries.flatMap writeEulerEntry) z.eulerNodes.entries :=
    reads_readMany _ fun e he => reads_eulerEntry (h.node e he).1 (h.node e he).2
  have hgroups : Reads (readMany readGroup z.forwardCsr.entries.length)
      (z.forwardCsr.entries.flatMap writeGroup) z.forwardCsr.entries :=
    reads_readMany _ fun g hg => reads_group (h.group g hg)
  have hbytes : rawBytes z = writeU32 z.eulerNodes.entries.length ++ (writeU32 0 ++
      (z.eulerNodes.entries.flatMap writeEulerEntry ++ (writeU32 z.forwardCsr.entries.length ++
        (z.forwardCsr.entries.flatMap writeGroup ++ [])))) := by
    simp only [rawBytes, List.append_assoc, List.append_nil]
  rw [hbytes]
  apply (reads_u32 h.nodes).bind
  apply (reads_u32 (Nat.two_pow_pos 32)).bind
  apply hnodes.bind
  apply (reads_u32 h.groups).bind
  apply hgroups.bind
  exact Reads.pure _

theorem rawBytes_length (z : ReferenceZone) : 8 ≤ (rawBytes z).length := by
  rw [rawBytes, List.append_assoc, List.append_assoc, List.length_append, List.length_append,
    writeU32, leBytes_length, writeU32, leBytes_length]
  omega

/-- A written zone passes the header. -/
theorem decode_encode_eq (z : ReferenceZone) : ∃ padding,
    decodeZoneBinary (encodeZoneBinary z) =
      (readRaw (rawBytes z ++ padding)).map fun r => zoneOf r.1 := by
  have hmagic : zone2Magic.length = 8 := by decide
  have hraw := rawBytes_length z
  obtain ⟨padding, hpad⟩ : ∃ padding,
      encodeZoneBinary z = zone2Magic ++ (rawBytes z ++ padding) :=
    ⟨_, List.append_assoc ..⟩
  refine ⟨padding, ?_⟩
  rw [decodeZoneBinary, hpad, List.take_left' hmagic, List.drop_left' hmagic, if_neg]
  rintro (hshort | hother)
  · rw [List.length_append, List.length_append, hmagic] at hshort
    omega
  · exact hother rfl

theorem decode_encode {z : ReferenceZone} (h : ZoneFits z) :
    decodeZoneBinary (encodeZoneBinary z) =
      .ok (zoneOf (z.eulerNodes.entries, z.forwardCsr.entries)) := by
  obtain ⟨padding, hdecode⟩ := decode_encode_eq z
  rw [hdecode, reads_raw h padding]
  rfl

/-- A reader has counted the nodes in a word. -/
theorem length_nodes_lt {bytes rest : List Byte}
    {raw : List (ℕ × EulerTreeNode) × List (RowAttr × List ℕ)}
    (h : readRaw bytes = .ok (raw, rest)) : raw.1.length < 2 ^ 32 := by
  obtain ⟨eulerCount, mid, hcount, h⟩ := Reader.bind_eq_ok h
  obtain ⟨_, mid, _, h⟩ := Reader.bind_eq_ok h
  obtain ⟨nodes, mid, hnodes, h⟩ := Reader.bind_eq_ok h
  obtain ⟨_, mid, _, h⟩ := Reader.bind_eq_ok h
  obtain ⟨groups, mid, _, h⟩ := Reader.bind_eq_ok h
  cases h
  have hlt := readLe_lt hcount
  rwa [← length_of_readMany hnodes] at hlt

/-! ### The edges of a decoded zone -/

/-- An edge under its source, put under its target. -/
def turnCell (cell : RowAttr × ℕ) : RowAttr × ℕ :=
  (toLex (cell.2, (ofLex cell.1).2), (ofLex cell.1).1)

def groupCells (group : RowAttr × List ℕ) : List (RowAttr × ℕ) :=
  group.2.map fun dst => (group.1, dst)

/-- The zone with these edges pushed behind its own. -/
def pushCells (z : ReferenceZone) (cells : List (RowAttr × ℕ)) : ReferenceZone :=
  { z with
    forwardCsr := z.forwardCsr.pushAll cells
    reverseVaetCsr := z.reverseVaetCsr.pushAll (cells.map turnCell) }

theorem pushCells_append (z : ReferenceZone) (cells cells' : List (RowAttr × ℕ)) :
    pushCells z (cells ++ cells') = pushCells (pushCells z cells) cells' := by
  simp only [pushCells, OrdMap.pushAll_append, List.map_append]

theorem addGroup_eq (z : ReferenceZone) (group : RowAttr × List ℕ) :
    addGroup z group = pushCells z (groupCells group) := by
  obtain ⟨key, targets⟩ := group
  unfold addGroup groupCells
  dsimp only
  induction targets generalizing z with
  | nil => rfl
  | cons dst targets ih =>
    rw [List.foldl_cons, ih]
    rfl

theorem foldl_addGroup (z : ReferenceZone) (groups : List (RowAttr × List ℕ)) :
    groups.foldl addGroup z = pushCells z (groups.flatMap groupCells) := by
  induction groups generalizing z with
  | nil => rfl
  | cons group groups ih =>
    rw [List.foldl_cons, ih, addGroup_eq, List.flatMap_cons, pushCells_append]

/-! ### A zone and its copy -/

/-- The second zone is the first, but for the order in which a target's sources stand. -/
structure ReferenceZone.SameAs (z z' : ReferenceZone) : Prop where
  eulerNodes : z'.eulerNodes = z.eulerNodes
  forwardCsr : z'.forwardCsr = z.forwardCsr
  fwd : z'.fwd = z.fwd
  rev : z'.rev = z.rev
  referrers : ∀ targetRow attrId,
    (z'.reverseReferrers targetRow attrId).Perm (z.reverseReferrers targetRow attrId)

def ReferenceZone.ReadsBack (z : ReferenceZone) : Prop :=
  ∃ z', decodeZoneBinary (encodeZoneBinary z) = .ok z' ∧ z.SameAs z'

/-- Intervals whose numbers are words. -/
structure EulerSlab where
  nodes : OrdMap ℕ EulerTreeNode
  fits : ∀ e ∈ nodes.entries, e.1 < 2 ^ 32 ∧ e.2.Fits

def EulerSlab.empty : EulerSlab := ⟨∅, fun _ he => by cases he⟩

/-- The sealed zone holds the edges that were added to it, on both sides, and is read back. -/
structure ReferenceZone.Keeps (z : ReferenceZone) (edges : List Edge) : Prop where
  fwd : z.fwd.Holds (edges.map Edge.forward)
  rev : z.rev.Holds (edges.map Edge.backward)
  transposed : z.Transposed
  readsBack : z.ReadsBack

open ReferenceZone

section Zone
variable (euler : EulerSlab) (edges : List Edge)

theorem groupFits_of_mem (h : edges.length < 2 ^ 32) {group : RowAttr × List ℕ}
    (hgroup : group ∈ (ofEdges euler.nodes edges).forwardCsr.entries) : GroupFits group := by
  have hperm := forward_cells_perm euler.nodes edges
  have hedge : ∀ dst ∈ group.2, ∃ e ∈ edges, e.forwardCell = (group.1, dst) := by
    intro dst hdst
    have hcell : (group.1, dst) ∈ (ofEdges euler.nodes edges).forwardCsr.cells :=
      List.mem_flatMap.mpr ⟨group, hgroup, List.mem_map.mpr ⟨dst, hdst, rfl⟩⟩
    exact List.mem_map.mp (hperm.mem_iff.mp hcell)
  have hsome : ∃ dst, dst ∈ group.2 := by
    apply List.exists_mem_of_ne_nil
    intro hnil
    have hkept := OrdMap.lookup_eq_some.mpr (show (group.1, group.2) ∈ _ from hgroup)
    rw [hnil] at hkept
    exact forward_noneEmpty euler.nodes edges group.1 hkept
  obtain ⟨dst, hdst⟩ := hsome
  obtain ⟨e, _, heq⟩ := hedge dst hdst
  have hkey : group.1 = toLex (e.sourceRow, e.attrId) := congrArg Prod.fst heq.symm
  refine ⟨?_, ?_, ?_, ?_⟩
  · rw [hkey]
    exact e.sourceRow_lt
  · rw [hkey]
    exact e.attrId_lt
  · have hle := OrdMap.length_group_le _ hgroup
    rw [hperm.length_eq, List.length_map] at hle
    omega
  · intro dst' hdst'
    obtain ⟨e', _, heq'⟩ := hedge dst' hdst'
    have htarget : dst' = e'.targetRow := congrArg Prod.snd heq'.symm
    rw [htarget]
    exact e'.targetRow_lt

theorem zoneFits_ofEdges (h : edges.length < 2 ^ 32)
    (hnodes : euler.nodes.entries.length < 2 ^ 32) : ZoneFits (ofEdges euler.nodes edges) where
  nodes := by rwa [ofEdges_eulerNodes]
  node := by
    rw [ofEdges_eulerNodes]
    exact euler.fits
  groups := by
    have hle := (forward_noneEmpty euler.nodes edges).length_entries_le
    rw [(forward_cells_perm euler.nodes edges).length_eq, List.length_map] at hle
    omega
  group := fun _ hgroup => groupFits_of_mem euler edges h hgroup

/-- A zone made of the nodes and the groups of another is the same zone. -/
theorem sameAs_zoneOf : (ofEdges euler.nodes edges).SameAs
    (zoneOf ((ofEdges euler.nodes edges).eulerNodes.entries,
      (ofEdges euler.nodes edges).forwardCsr.entries)) := by
  have hzone : zoneOf ((ofEdges euler.nodes edges).eulerNodes.entries,
      (ofEdges euler.nodes edges).forwardCsr.entries) =
      (pushCells { ReferenceZone.new with eulerNodes := (ofEdges euler.nodes edges).eulerNodes }
        (ofEdges euler.nodes edges).forwardCsr.cells).sealContiguousCsrArrays := by
    rw [zoneOf, foldl_addGroup, OrdMap.insertList_entries]
    rfl
  have hforward : (∅ : OrdMap RowAttr (List ℕ)).pushAll
      (ofEdges euler.nodes edges).forwardCsr.cells = (ofEdges euler.nodes edges).forwardCsr :=
    (forward_noneEmpty euler.nodes edges).pushAll_cells
  have hreverse : ((∅ : OrdMap RowAttr (List ℕ)).pushAll
      ((ofEdges euler.nodes edges).forwardCsr.cells.map turnCell)).cells.Perm
        (ofEdges euler.nodes edges).reverseVaetCsr.cells := by
    have hturned := (forward_cells_perm euler.nodes edges).map turnCell
    rw [List.map_map] at hturned
    exact ((OrdMap.cells_pushAll _).trans hturned).trans (reverse_cells_perm euler.nodes edges).symm
  have hcount : nodeCount (pushCells
      { ReferenceZone.new with eulerNodes := (ofEdges euler.nodes edges).eulerNodes }
        (ofEdges euler.nodes edges).forwardCsr.cells) = (ofEdges euler.nodes edges).nodeCount := by
    rw [nodeCount, nodeCount]
    change max (maxRow ((∅ : OrdMap RowAttr (List ℕ)).pushAll _))
      (maxRow ((∅ : OrdMap RowAttr (List ℕ)).pushAll _)) + 1 = _
    rw [hforward, maxRow_congr (OrdMap.noneEmpty_empty.pushAll _)
      (reverse_noneEmpty euler.nodes edges) hreverse]
  rw [hzone]
  refine ⟨rfl, hforward, ?_, ?_, ?_⟩
  · rw [ofEdges_fwd, ← hcount]
    exact congrArg (sealSide _) hforward
  · rw [ofEdges_rev, ← hcount]
    exact sealSide_congr hreverse
  · intro targetRow attrId
    exact OrdMap.group_perm hreverse _

theorem readsBack_of_lt (h : edges.length < 2 ^ 32)
    (hnodes : euler.nodes.entries.length < 2 ^ 32) : (ofEdges euler.nodes edges).ReadsBack :=
  ⟨_, decode_encode (zoneFits_ofEdges euler edges h hnodes), sameAs_zoneOf euler edges⟩

/-- Nodes that a word does not count are not all read back. -/
theorem length_nodes_lt_of_readsBack (h : (ofEdges euler.nodes edges).ReadsBack) :
    euler.nodes.entries.length < 2 ^ 32 := by
  obtain ⟨z', hdecode, hsame⟩ := h
  obtain ⟨padding, hpadded⟩ := decode_encode_eq (ofEdges euler.nodes edges)
  rw [hpadded] at hdecode
  cases hread : readRaw (rawBytes (ofEdges euler.nodes edges) ++ padding) with
  | error err =>
    rw [hread] at hdecode
    cases hdecode
  | ok r =>
    rw [hread] at hdecode
    have hz : zoneOf r.1 = z' := Except.ok.inj hdecode
    have hnodes : z'.eulerNodes = (∅ : OrdMap ℕ EulerTreeNode).insertList r.1.1 := by
      rw [← hz, zoneOf, foldl_addGroup]
      rfl
    have hle := OrdMap.length_insertList_le (∅ : OrdMap ℕ EulerTreeNode) r.1.1
    have hlt := length_nodes_lt (show readRaw _ = .ok (r.1, r.2) from hread)
    rw [← hnodes, hsame.eulerNodes, ofEdges_eulerNodes, OrdMap.entries_empty, List.length_nil] at hle
    omega

/-- A zone keeps its edges exactly while words of 32 bits count the edges and the nodes. -/
theorem ofEdges_keeps_iff : (ofEdges euler.nodes edges).Keeps edges ↔
    edges.length < 2 ^ 32 ∧ euler.nodes.entries.length < 2 ^ 32 := by
  constructor
  · intro h
    exact ⟨(fwd_holds_iff euler.nodes edges).mp h.fwd,
      length_nodes_lt_of_readsBack euler edges h.readsBack⟩
  · rintro ⟨hedges, hnodes⟩
    exact
      { fwd := (fwd_holds_iff euler.nodes edges).mpr hedges
        rev := rev_holds euler.nodes edges hedges
        transposed := ofEdges_transposed euler.nodes edges hedges
        readsBack := readsBack_of_lt euler edges hedges hnodes }

end Zone

theorem one_lt_row : 1 < 2 ^ 32 := Nat.one_lt_two_pow (by decide)

theorem one_lt_attr : 1 < 2 ^ 16 := Nat.one_lt_two_pow (by decide)

def selfEdge : Edge := ⟨1, 1, 1, one_lt_row, one_lt_attr, one_lt_row⟩

/-- With `2^32` edges the last offset is 0 again. -/
theorem uncounted_edges_are_lost :
    ¬(ofEdges EulerSlab.empty.nodes (List.replicate (2 ^ 32) selfEdge)).Keeps
      (List.replicate (2 ^ 32) selfEdge) := by
  intro h
  have hlt := (fwd_holds_iff _ _).mp h.fwd
  rw [List.length_replicate] at hlt
  exact lt_irrefl _ hlt

end MetriEngine.Storage.CsrGraph
