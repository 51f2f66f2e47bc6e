/-
**The list of drives.**

`library/VFS/VFS.c` keeps the mounted drives in a doubly linked list of `vfs_node`s with a head
and a tail.  The tail is set when the second drive is added; until then it is null.

Main definitions:

* `Pico.Vfs.listAdd`, `Pico.Vfs.listGet`, `Pico.Vfs.listRemove` — the operations, on a heap of
  nodes.  They have no outcome when a null or a freed node is dereferenced;
* `Pico.Vfs.DriveNodes`, `Pico.Vfs.DriveList` — the nodes reachable from the head, and the drives
  they carry;
* `Pico.Vfs.ListStepOk` — what the list owes its users at one call.

Main results:

* `Pico.Vfs.DriveList.listAdd`, `Pico.Vfs.DriveList.listGet`, `Pico.Vfs.DriveList.listRemove` — what
  the operations do to a list of drives; removing has an outcome exactly for a drive between two
  others;
* `Pico.Vfs.list_refines_iff` — **a run of the operations refines a finite map exactly when nodes
  can be allocated and every drive that is removed lies between two others.**
-/

import WizioPico.CTypes
import WizioPico.Linked
import WizioPico.Runs

set_option relaxedAutoImplicit false
set_option autoImplicit false

namespace Pico.Vfs

/-! ### The operations -/

/-- `vfs_t`: a drive, with the context of its file system and its name, `"F:"`. -/
structure VfsT where
  ctx : ℕ
  name0 : UInt8
  name1 : UInt8
  name2 : UInt8
  deriving DecidableEq

/-- `vfs_node`. -/
structure VfsNode where
  fs : ℕ
  prev : ℕ
  next : ℕ
  deriving DecidableEq

/-- `vfs_list_t`, together with the nodes that have been allocated. -/
structure VfsList where
  head : ℕ
  tail : ℕ
  nodes : ObjHeap VfsNode

/-- `vfs_create_list`. -/
def vfsCreateList : VfsList := ⟨0, 0, .empty⟩

/-- `create_node`, where `malloc` returns `node`.  The result is not tested before it is used. -/
def createNode (nodes : ObjHeap VfsNode) (fs node : ℕ) : Option (ObjHeap VfsNode) :=
  if h : node ≠ 0 then some (nodes.alloc node ⟨fs, 0, 0⟩ h) else none

/-- `list_add`, where `malloc` returns `newNode`. -/
def listAdd (this : VfsList) (fs newNode : ℕ) : Option VfsList :=
  (createNode this.nodes fs newNode).bind fun nodes =>
    if this.head = 0 then some { this with head := newNode, nodes := nodes }
    else
      let lastNode := if this.tail = 0 then this.head else this.tail
      (nodes.modify lastNode fun n => { n with next := newNode }).bind fun nodes =>
      (nodes.modify newNode fun n => { n with prev := lastNode }).bind fun nodes =>
      some { this with tail := newNode, nodes := nodes }

/-- `list_get`: the drive with the letter of the name, or null. -/
def listGet (fss : ObjHeap VfsT) (this : VfsList) (name : CString) : Option ℕ :=
  if isValidDev name then
    (walk VfsNode.next (fun n => (fss.load n.fs).map fun fs => fs.name0 == name.char 0)
      this.nodes (this.nodes.size + 1) this.head).bind fun drive =>
        if drive = 0 then some 0 else (this.nodes.load drive).map VfsNode.fs
  else some 0

/-- `list_remove`. -/
def listRemove (this : VfsList) (item : ℕ) : Option VfsList :=
  (walk VfsNode.next (fun n => some (n.fs == item)) this.nodes (this.nodes.size + 1)
    this.head).bind fun node =>
      if node = 0 then some this
      else (this.nodes.load node).bind fun n =>
        (this.nodes.modify n.prev fun m => { m with next := n.next }).bind fun nodes =>
        (nodes.modify n.next fun m => { m with prev := n.prev }).bind fun nodes =>
        some { this with nodes := nodes.free node }

/-! ### The drives of a list -/

/-- **The nodes reachable from the head carry the drives `ds`, in this order.**  The nodes are
linked in both directions, and the tail, when it is set, is the last of them; it may only be
unset while there are fewer than two. -/
structure DriveNodes (this : VfsList) (L : List (ℕ × VfsNode)) : Prop where
  linked : Linked VfsNode.next VfsNode.prev this.nodes 0 L 0
  nodup : (L.map Prod.fst).Nodup
  head : this.head = headAddr L 0
  tail : this.tail = lastAddr 0 L ∨ this.tail = 0 ∧ L.length ≤ 1

/-- The drives that the nodes carry. -/
def drives (L : List (ℕ × VfsNode)) : List ℕ := L.map fun e => e.2.fs

/-- The list holds the drives `ds`, in this order. -/
def DriveList (this : VfsList) (ds : List ℕ) : Prop :=
  ∃ L, DriveNodes this L ∧ drives L = ds

@[simp] theorem drives_append (L₁ L₂ : List (ℕ × VfsNode)) :
    drives (L₁ ++ L₂) = drives L₁ ++ drives L₂ := List.map_append ..

@[simp] theorem drives_cons (e : ℕ × VfsNode) (L : List (ℕ × VfsNode)) :
    drives (e :: L) = e.2.fs :: drives L := rfl

/-- The empty list. -/
theorem driveList_create : DriveList vfsCreateList [] :=
  ⟨[], ⟨trivial, List.nodup_nil, rfl, Or.inl rfl⟩, rfl⟩

/-- There is room in the fuel of a walk for every node of the list. -/
theorem DriveNodes.length_lt {this : VfsList} {L : List (ℕ × VfsNode)} (h : DriveNodes this L) :
    L.length < this.nodes.size + 1 := by
  rw [← List.length_map (f := Prod.fst), Nat.lt_succ_iff]
  refine ObjHeap.length_le_size h.nodup fun p hp => ?_
  obtain ⟨e, he, rfl⟩ := List.mem_map.1 hp
  exact ⟨e.2, h.linked.load_of_mem he⟩

/-- The drives of the nodes reachable from `p`, along at most `fuel` nodes. -/
def drivesFrom (nodes : ObjHeap VfsNode) : ℕ → ℕ → List ℕ
  | 0, _ => []
  | fuel + 1, p => match nodes.load p with
    | none => []
    | some n => n.fs :: drivesFrom nodes fuel n.next

/-- The drives of the nodes reachable from the head. -/
def mounted (this : VfsList) : List ℕ := drivesFrom this.nodes this.nodes.size this.head

theorem drivesFrom_eq {nodes : ObjHeap VfsNode} {L : List (ℕ × VfsNode)} {p fuel : ℕ}
    (h : Linked VfsNode.next VfsNode.prev nodes p L 0) (hf : L.length ≤ fuel) :
    drivesFrom nodes fuel (headAddr L 0) = drives L := by
  induction L generalizing p fuel with
  | nil => cases fuel <;> simp [drivesFrom, headAddr, drives]
  | cons e L ih =>
      obtain ⟨hload, -, hnext, hrest⟩ := h
      obtain ⟨fuel, rfl⟩ : ∃ k, fuel = k + 1 := ⟨fuel - 1, by simp at hf; omega⟩
      change (match nodes.load e.1 with
        | none => []
        | some n => n.fs :: drivesFrom nodes fuel n.next) = e.2.fs :: drives L
      simp only [hload, hnext, ih hrest (Nat.le_of_succ_le_succ hf)]

/-- The drives that a list holds are determined by it. -/
theorem DriveList.mounted_eq {this : VfsList} {ds : List ℕ} (h : DriveList this ds) :
    mounted this = ds := by
  obtain ⟨L, hL, rfl⟩ := h
  rw [mounted, hL.head, drivesFrom_eq hL.linked (Nat.le_of_lt_succ hL.length_lt)]

/-! ### Adding -/

/-- **Adding a drive** puts it at the end of the list. -/
theorem DriveList.listAdd {this : VfsList} {ds : List ℕ} (h : DriveList this ds) (fs : ℕ) {node : ℕ}
    (hnode : node ≠ 0) (hfree : this.nodes.load node = none) :
    ∃ this', listAdd this fs node = some this' ∧ DriveList this' (ds ++ [fs]) := by
  obtain ⟨L, hL, rfl⟩ := h
  have hnew : (this.nodes.alloc node ⟨fs, 0, 0⟩ hnode).load node = some ⟨fs, 0, 0⟩ := by simp
  have hold : ∀ e ∈ L, e.1 ≠ node := by
    rintro e he rfl
    rw [hL.linked.load_of_mem he] at hfree
    cases hfree
  rcases List.eq_nil_or_concat L with rfl | ⟨L, ⟨a, v⟩, rfl⟩
  · -- the first drive becomes the head, and the tail stays unset
    have hhead : this.head = 0 := hL.head
    refine ⟨{ this with head := node, nodes := this.nodes.alloc node ⟨fs, 0, 0⟩ hnode }, ?_,
      [(node, ⟨fs, 0, 0⟩)], ⟨⟨hnew, rfl, rfl, trivial⟩, List.pairwise_singleton _ _, rfl, ?_⟩,
      rfl⟩
    · rw [Vfs.listAdd, createNode, dif_pos hnode, Option.bind_some, if_pos hhead]
    · exact Or.inr ⟨hL.tail.elim id And.left, Nat.le_refl _⟩
  · rw [List.concat_eq_append] at hL hold ⊢
    have hmem : (a, v) ∈ L ++ [(a, v)] := List.mem_append_right _ List.mem_cons_self
    have hload : this.nodes.load a = some v := hL.linked.load_of_mem hmem
    have ha : a ≠ 0 := ObjHeap.ne_zero_of_load hload
    have han : a ≠ node := hold (a, v) hmem
    -- whether or not the tail is set, the new node is linked behind the last one
    have hlast : (if this.tail = 0 then this.head else this.tail) = a := by
      rcases hL.tail with ht | ⟨ht, hlen⟩
      · rw [lastAddr_snoc] at ht
        rw [ht, if_neg ha]
      · have : L = [] := List.length_eq_zero_iff.1 (by simpa using hlen)
        subst this
        rw [if_pos ht, hL.head]
        rfl
    have hhead : this.head ≠ 0 := by
      rw [hL.head, headAddr_append]
      cases L with
      | nil => exact ha
      | cons e L => exact ObjHeap.ne_zero_of_load (hL.linked.load_of_mem List.mem_cons_self)
    obtain ⟨n₁, hn₁, hn₁a, hn₁o⟩ := ObjHeap.exists_modify (fun n => { n with next := node })
      ((ObjHeap.load_alloc_of_ne han).trans hload)
    obtain ⟨n₂, hn₂, hn₂n, hn₂o⟩ := ObjHeap.exists_modify (fun n => { n with prev := a })
      ((hn₁o node han.symm).trans hnew)
    have hsame : ∀ q, q ≠ a → q ≠ node → n₂.load q = this.nodes.load q := fun q hqa hqn => by
      rw [hn₂o q hqn, hn₁o q hqa, ObjHeap.load_alloc_of_ne hqn]
    have hndL := List.nodup_append.1 (by simpa only [List.map_append] using hL.nodup)
    refine ⟨{ this with tail := node, nodes := n₂ }, ?_,
      L ++ [(a, { v with next := node }), (node, ⟨fs, a, 0⟩)], ⟨?_, ?_, ?_, ?_⟩, ?_⟩
    · rw [Vfs.listAdd, createNode, dif_pos hnode, Option.bind_some, if_neg hhead]
      simp only [hlast, hn₁, Option.bind_some, hn₂]
    · refine hL.linked.snoc ((hn₂o a han).trans hn₁a) rfl rfl hn₂n rfl rfl fun e he => ?_
      refine hsame e.1 (fun heq => ?_) (hold e (List.mem_append_left _ he))
      exact hndL.2.2 e.1 (List.mem_map_of_mem he) a List.mem_cons_self heq
    · have hnd : ((L ++ [(a, v)]).map Prod.fst ++ [node]).Nodup := by
        refine List.nodup_append.2 ⟨hL.nodup, List.pairwise_singleton _ _, fun p hp q hq => ?_⟩
        obtain ⟨e, he, rfl⟩ := List.mem_map.1 hp
        rw [List.mem_singleton.1 hq]
        exact hold e he
      simpa using hnd
    · rw [hL.head, headAddr_append, headAddr_append]
      rfl
    · left
      rw [lastAddr_append]
      rfl
    · simp [drives]

/-! ### Looking a drive up -/

/-- The letter of a drive. -/
def letter (fss : ObjHeap VfsT) (fs : ℕ) : UInt8 := ((fss.load fs).map VfsT.name0).getD 0

/-- **Looking up a name** finds the first drive with its letter, if the name is one of a device. -/
theorem DriveList.listGet {this : VfsList} {ds : List ℕ} (h : DriveList this ds)
    {fss : ObjHeap VfsT} (hfss : ∀ fs ∈ ds, ∃ v, fss.load fs = some v) (name : CString) :
    listGet fss this name =
      some (if isValidDev name then
        (ds.find? fun fs => letter fss fs == name.char 0).getD 0 else 0) := by
  obtain ⟨L, hL, rfl⟩ := h
  have htest : ∀ e ∈ L, ((fss.load e.2.fs).map fun fs => fs.name0 == name.char 0) =
      some (letter fss e.2.fs == name.char 0) := by
    intro e he
    obtain ⟨v, hv⟩ := hfss e.2.fs (List.mem_map_of_mem he)
    rw [letter, hv]
    rfl
  rw [Vfs.listGet]
  split
  · rw [hL.head,
      hL.linked.walk_eq (t := fun n => letter fss n.fs == name.char 0) htest hL.length_lt,
      drives, List.find?_map, Option.bind_some]
    change _ = some
      (((L.find? fun e => letter fss e.2.fs == name.char 0).map fun e => e.2.fs).getD 0)
    cases hfind : L.find? fun e => letter fss e.2.fs == name.char 0 with
    | none => rfl
    | some e =>
        have hload := hL.linked.load_of_mem (List.mem_of_find?_eq_some hfind)
        simp [hload, ObjHeap.ne_zero_of_load hload]
  · rfl

/-- A device name finds a drive exactly if the list has one with its letter, and then such a one. -/
theorem DriveList.exists_listGet {this : VfsList} {ds : List ℕ} (h : DriveList this ds)
    {fss : ObjHeap VfsT} (hfss : ∀ fs ∈ ds, ∃ v, fss.load fs = some v) {name : CString}
    (hname : isValidDev name = true) :
    ∃ fs, Vfs.listGet fss this name = some fs ∧
      (fs ≠ 0 ↔ ∃ d ∈ ds, letter fss d = name.char 0) ∧
      (fs ≠ 0 → fs ∈ ds ∧ letter fss fs = name.char 0) := by
  refine ⟨_, h.listGet hfss name, ?_⟩
  rw [if_pos hname]
  cases hfind : ds.find? fun fs => letter fss fs == name.char 0 with
  | none =>
      have hnone : ¬∃ d ∈ ds, letter fss d = name.char 0 := by
        rintro ⟨d, hd, hl⟩
        exact List.find?_eq_none.1 hfind d hd (beq_iff_eq.2 hl)
      exact ⟨⟨fun h => absurd rfl h, fun h => absurd h hnone⟩, fun h => absurd rfl h⟩
  | some fs =>
      have hmem : fs ∈ ds := List.mem_of_find?_eq_some hfind
      have hl : letter fss fs = name.char 0 := by simpa using List.find?_some hfind
      obtain ⟨v, hv⟩ := hfss fs hmem
      exact ⟨⟨fun _ => ⟨fs, hmem, hl⟩, fun _ => ObjHeap.ne_zero_of_load hv⟩, fun _ => ⟨hmem, hl⟩⟩

/-! ### Removing -/

/-- Removing a drive, once the walk has found its node `e`. -/
theorem DriveNodes.listRemove_eq {this : VfsList} {L₁ L₂ : List (ℕ × VfsNode)} {e : ℕ × VfsNode}
    (h : DriveNodes this (L₁ ++ e :: L₂)) (hL₁ : ∀ d ∈ L₁, d.2.fs ≠ e.2.fs) :
    listRemove this e.2.fs =
      (this.nodes.modify (lastAddr 0 L₁) fun m => { m with next := headAddr L₂ 0 }).bind fun nodes =>
      (nodes.modify (headAddr L₂ 0) fun m => { m with prev := lastAddr 0 L₁ }).bind fun nodes =>
      some { this with nodes := nodes.free e.1 } := by
  have hwalk : walk VfsNode.next (fun n => some (n.fs == e.2.fs)) this.nodes
      (this.nodes.size + 1) (headAddr (L₁ ++ e :: L₂) 0) =
        some ((((L₁ ++ e :: L₂).find? fun d => d.2.fs == e.2.fs).map Prod.fst).getD 0) :=
    h.linked.walk_eq (t := fun n => n.fs == e.2.fs) (fun _ _ => rfl) h.length_lt
  have hnone : L₁.find? (fun d => d.2.fs == e.2.fs) = none :=
    List.find?_eq_none.2 fun d hd hde => hL₁ d hd (beq_iff_eq.1 hde)
  obtain ⟨-, hload, hprev, hnext, -⟩ := Linked.append_iff.1 h.linked
  rw [List.find?_append, hnone, Option.none_or, List.find?_cons_of_pos (by simp)] at hwalk
  rw [listRemove, h.head, hwalk, Option.bind_some, Option.map_some, Option.getD_some,
    if_neg (ObjHeap.ne_zero_of_load hload), hload, Option.bind_some, hprev, hnext]

/-- The first drive cannot be removed: its node has no node before it. -/
theorem DriveNodes.listRemove_first {this : VfsList} {L : List (ℕ × VfsNode)} {e : ℕ × VfsNode}
    (h : DriveNodes this (e :: L)) : listRemove this e.2.fs = none := by
  have h' : DriveNodes this ([] ++ e :: L) := h
  rw [h'.listRemove_eq fun _ hd => nomatch hd]
  exact congrArg (Option.bind · _) (ObjHeap.modify_zero _ _)

/-- The last drive cannot be removed: its node has no node behind it. -/
theorem DriveNodes.listRemove_last {this : VfsList} {L : List (ℕ × VfsNode)} {e : ℕ × VfsNode}
    (h : DriveNodes this (L ++ [e])) (hL : ∀ d ∈ L, d.2.fs ≠ e.2.fs) :
    listRemove this e.2.fs = none := by
  rw [h.listRemove_eq hL, Option.bind_eq_none_iff]
  rintro nodes -
  exact congrArg (Option.bind · _) (ObjHeap.modify_zero _ _)

/-- **Removing a drive between two others** takes its node out and leaves the rest of the list as
it was. -/
theorem DriveNodes.listRemove_between {this : VfsList} {L₁ L₂ : List (ℕ × VfsNode)}
    {x e z : ℕ × VfsNode} (h : DriveNodes this (L₁ ++ x :: e :: z :: L₂))
    (hx : ∀ d ∈ L₁ ++ [x], d.2.fs ≠ e.2.fs) :
    ∃ this', listRemove this e.2.fs = some this' ∧
      DriveList this' (drives (L₁ ++ [x]) ++ drives (z :: L₂)) := by
  obtain ⟨x, vx⟩ := x
  obtain ⟨z, vz⟩ := z
  have hsplit : L₁ ++ (x, vx) :: e :: (z, vz) :: L₂ = (L₁ ++ [(x, vx)]) ++ e :: (z, vz) :: L₂ := by
    rw [List.append_assoc, List.cons_append, List.nil_append]
  have hloadx : this.nodes.load x = some vx :=
    h.linked.load_of_mem (List.mem_append_right _ (by simp : (x, vx) ∈ _))
  have hloadz : this.nodes.load z = some vz :=
    h.linked.load_of_mem (List.mem_append_right _ (by simp : (z, vz) ∈ _))
  have hnd := h.nodup
  simp only [List.map_append, List.map_cons, List.nodup_append, List.nodup_cons, List.mem_cons,
    not_or] at hnd
  obtain ⟨-, ⟨⟨hxe, hxz, hxL⟩, ⟨hez, heL⟩, hzL, -⟩, hL₁⟩ := hnd
  obtain ⟨n₁, hn₁, hn₁x, hn₁o⟩ :=
    ObjHeap.exists_modify (fun m : VfsNode => { m with next := z }) hloadx
  obtain ⟨n₂, hn₂, hn₂z, hn₂o⟩ :=
    ObjHeap.exists_modify (fun m : VfsNode => { m with prev := x })
      ((hn₁o z (Ne.symm hxz)).trans hloadz)
  -- the nodes on either side are neither of the three that are touched
  have hother : ∀ d ∈ L₁ ++ L₂, (n₂.free e.1).load d.1 = this.nodes.load d.1 := by
    intro d hd
    have hne : d.1 ≠ x ∧ d.1 ≠ e.1 ∧ d.1 ≠ z := by
      rcases List.mem_append.1 hd with hd | hd
      · have hd' := hL₁ d.1 (List.mem_map_of_mem hd)
        exact ⟨hd' x (Or.inl rfl), hd' e.1 (Or.inr (Or.inl rfl)),
          hd' z (Or.inr (Or.inr (Or.inl rfl)))⟩
      · have hd' : d.1 ∈ L₂.map Prod.fst := List.mem_map_of_mem hd
        exact ⟨fun h => hxL (h ▸ hd'), fun h => heL (h ▸ hd'), fun h => hzL (h ▸ hd')⟩
    rw [ObjHeap.load_free_of_ne hne.2.1, hn₂o _ hne.2.2, hn₁o _ hne.1]
  refine ⟨{ this with nodes := n₂.free e.1 }, ?_,
    L₁ ++ (x, { vx with next := z }) :: (z, { vz with prev := x }) :: L₂, ⟨?_, ?_, ?_, ?_⟩, ?_⟩
  · rw [DriveNodes.listRemove_eq (hsplit ▸ h) hx, lastAddr_snoc]
    simp only [headAddr, hn₁, hn₂, Option.bind_some]
  · refine h.linked.unlink ?_ rfl rfl ?_ rfl rfl hother
    · rw [ObjHeap.load_free_of_ne hxe, hn₂o x hxz, hn₁x]
    · rw [ObjHeap.load_free_of_ne (Ne.symm hez), hn₂z]
  · refine h.nodup.sublist ?_
    simp only [List.map_append, List.map_cons]
    exact (List.Sublist.refl _).append ((List.sublist_cons_self _ _).cons_cons _)
  · rw [h.head, headAddr_append, headAddr_append]
    rfl
  · rcases h.tail with ht | ⟨-, hlen⟩
    · left
      rw [ht, lastAddr_append, lastAddr_append]
      rfl
    · simp at hlen
      omega
  · simp [drives]

/-- **Removing a drive has an outcome exactly for a drive between two others**, and the list then
holds the other drives. -/
theorem DriveList.listRemove {this : VfsList} {ds : List ℕ} (h : DriveList this ds)
    (hnd : ds.Nodup) {fs : ℕ} (hfs : fs ∈ ds) :
    (ds.head? = some fs ∨ ds.getLast? = some fs) ∧ Vfs.listRemove this fs = none ∨
      (ds.head? ≠ some fs ∧ ds.getLast? ≠ some fs) ∧
        ∃ this', Vfs.listRemove this fs = some this' ∧ DriveList this' (ds.erase fs) := by
  obtain ⟨L, hL, rfl⟩ := h
  obtain ⟨A, B, hAB⟩ := List.append_of_mem hfs
  obtain ⟨LA, LB', rfl, rfl, hB⟩ := List.map_eq_append_iff.1 hAB
  obtain ⟨e, LB, rfl, rfl, rfl⟩ := List.map_eq_cons_iff.1 hB
  change (drives (LA ++ e :: LB)).Nodup at hnd
  rw [drives_append, drives_cons, List.nodup_append, List.nodup_cons] at hnd
  obtain ⟨-, ⟨heB, -⟩, hA⟩ := hnd
  have hLA : ∀ d ∈ LA, d.2.fs ≠ e.2.fs := fun d hd =>
    hA d.2.fs (List.mem_map_of_mem hd) e.2.fs List.mem_cons_self
  have hLB : ∀ d ∈ LB, d.2.fs ≠ e.2.fs := fun d hd heq => heB (heq ▸ List.mem_map_of_mem hd)
  rcases List.eq_nil_or_concat LA with rfl | ⟨LA, x, rfl⟩
  · exact Or.inl ⟨Or.inl rfl, hL.listRemove_first⟩
  rcases LB with _ | ⟨z, LB⟩
  · refine Or.inl ⟨Or.inr ?_, hL.listRemove_last hLA⟩
    rw [drives_append]
    exact List.getLast?_concat
  · rw [List.concat_eq_append] at hL hLA
    rw [List.concat_eq_append]
    refine Or.inr ⟨⟨fun hhead => ?_, fun hlast => ?_⟩, ?_⟩
    · rw [drives_append, List.head?_append_of_ne_nil _ (by simp)] at hhead
      obtain ⟨d, hd, hde⟩ := List.mem_map.1 (List.mem_of_head? hhead)
      exact hLA d hd hde
    · rw [drives_append, drives_cons, List.getLast?_append_of_ne_nil _ (by simp), drives_cons,
        List.getLast?_cons_cons, ← drives_cons] at hlast
      obtain ⟨d, hd, hde⟩ := List.mem_map.1 (List.mem_of_getLast? hlast)
      exact hLB d hd hde
    · have hLA' : e.2.fs ∉ drives (LA ++ [x]) := fun hmem => by
        obtain ⟨d, hd, hde⟩ := List.mem_map.1 hmem
        exact hLA d hd hde
      rw [drives_append, drives_cons, List.erase_append_right _ hLA', List.erase_cons_head]
      exact DriveNodes.listRemove_between (by simpa using hL) hLA

/-! ### Runs -/

/-- A call of an operation on the list: `list_add` of a drive, where `malloc` returns `node`, or
`list_remove` of one. -/
inductive ListCall where
  | add (fs node : ℕ)
  | remove (fs : ℕ)
  deriving DecidableEq

/-- The list, together with the drives that have been added and not removed since, in order of
addition. -/
structure ListState where
  this : VfsList
  added : List ℕ

/-- Only fresh drives are added, and only drives of the list are removed; `malloc` returns null or
an address at which no node is allocated. -/
def ListCall.Admissible (s : ListState) : ListCall → Prop
  | .add fs node => fs ∉ s.added ∧ (node = 0 ∨ s.this.nodes.load node = none)
  | .remove fs => fs ∈ s.added

instance (s : ListState) : (c : ListCall) → Decidable (c.Admissible s)
  | .add fs node => inferInstanceAs (Decidable (fs ∉ s.added ∧ (node = 0 ∨ _)))
  | .remove fs => inferInstanceAs (Decidable (fs ∈ s.added))

/-- What a call does. -/
def ListCall.run (s : ListState) : ListCall → Option ListState
  | .add fs node => (listAdd s.this fs node).map fun this => ⟨this, s.added ++ [fs]⟩
  | .remove fs => (listRemove s.this fs).map fun this => ⟨this, s.added.erase fs⟩

/-- A run consists of admissible calls. -/
def listStep (s : ListState) (c : ListCall) : Option ListState :=
  if c.Admissible s then c.run s else none

/-- **The list is a finite map**: the nodes reachable from the head carry the drives `added`, in
this order, they are linked in both directions, and the tail, if it is set, is the last of them;
whatever the drives are, looking up a device finds a drive exactly if the list has one with that
letter. -/
structure IsDriveMap (s : ListState) : Prop where
  nodes : ∃ L, Linked VfsNode.next VfsNode.prev s.this.nodes 0 L 0 ∧
    s.this.head = headAddr L 0 ∧ drives L = s.added ∧
    (s.this.tail ≠ 0 → s.this.tail = lastAddr 0 L)
  lookup : ∀ fss : ObjHeap VfsT, (∀ fs ∈ s.added, ∃ v, fss.load fs = some v) →
    ∀ name, isValidDev name = true → ∃ fs, listGet fss s.this name = some fs ∧
      (fs ≠ 0 ↔ ∃ d ∈ s.added, letter fss d = name.char 0) ∧
      (fs ≠ 0 → fs ∈ s.added ∧ letter fss fs = name.char 0)

/-- What the list owes its users at one call: an admissible call dereferences no null and no freed
node, and leaves a finite map. -/
def ListStepOk (s : ListState) (c : ListCall) : Prop :=
  c.Admissible s → ∃ s', listStep s c = some s' ∧ IsDriveMap s'

/-- The calls that keep this: the node has been allocated, and the drive to be removed has another
one on either side. -/
def ListCall.Between (s : ListState) : ListCall → Prop
  | .add _ node => node ≠ 0
  | .remove fs => s.added.head? ≠ some fs ∧ s.added.getLast? ≠ some fs

/-- The invariant of the list. -/
def ListState.Inv (s : ListState) : Prop := DriveList s.this s.added ∧ s.added.Nodup

theorem ListState.Inv.isDriveMap {s : ListState} (h : s.Inv) : IsDriveMap s where
  nodes := by
    obtain ⟨L, hL, hds⟩ := h.1
    refine ⟨L, hL.linked, hL.head, hds, fun hne => ?_⟩
    exact hL.tail.resolve_right fun ht => hne ht.1
  lookup fss hfss name hname := h.1.exists_listGet hfss hname

/-- The state before the first call. -/
def listInit : ListState := ⟨vfsCreateList, []⟩

theorem inv_listInit : listInit.Inv := ⟨driveList_create, List.nodup_nil⟩

/-- One admissible call: it meets a null node, or it keeps the invariant. -/
theorem listStep_cases {s : ListState} (h : s.Inv) {c : ListCall} (hc : c.Admissible s) :
    ¬c.Between s ∧ listStep s c = none ∨
      c.Between s ∧ ∃ s', listStep s c = some s' ∧ s'.Inv := by
  rw [listStep, if_pos hc]
  cases c with
  | add fs node =>
      rcases eq_or_ne node 0 with rfl | hnode
      · exact Or.inl ⟨fun h => h rfl, rfl⟩
      · obtain ⟨this', hthis, hlist⟩ := h.1.listAdd fs hnode (hc.2.resolve_left hnode)
        refine Or.inr ⟨hnode, ⟨this', s.added ++ [fs]⟩, by rw [ListCall.run, hthis]; rfl, hlist, ?_⟩
        refine List.nodup_append.2 ⟨h.2, List.pairwise_singleton _ _, fun d hd b hb => ?_⟩
        rintro rfl
        exact hc.1 (List.mem_singleton.1 hb ▸ hd)
  | remove fs =>
      rcases h.1.listRemove h.2 hc with ⟨hend, hnone⟩ | ⟨hbetween, this', hthis, hlist⟩
      · exact Or.inl ⟨fun hb => hend.elim hb.1 hb.2, by rw [ListCall.run, hnone]; rfl⟩
      · refine Or.inr ⟨hbetween, ⟨this', s.added.erase fs⟩, ?_, hlist, h.2.erase fs⟩
        rw [ListCall.run, hthis]
        rfl

/-- At one call, the list meets its contract exactly between two other drives. -/
theorem listStepOk_iff {s : ListState} (h : s.Inv) (c : ListCall) :
    ListStepOk s c ↔ (c.Admissible s → c.Between s) := by
  refine forall_congr' fun hc => ?_
  rcases listStep_cases h hc with ⟨hb, hnone⟩ | ⟨hb, s', hs', hinv⟩
  · rw [hnone]
    refine ⟨?_, fun h => absurd h hb⟩
    rintro ⟨s', hs', -⟩
    cases hs'
  · exact ⟨fun _ => hb, fun _ => ⟨s', hs', hinv.isDriveMap⟩⟩

/-- **A run of the list refines a finite map exactly when every node is allocated and every drive
that is removed lies between two others.** -/
theorem list_refines_iff (cs : List ListCall) :
    Runs.Every listStep ListStepOk listInit cs ↔
      Runs.Every listStep (fun s c => c.Admissible s → c.Between s) listInit cs := by
  refine Runs.every_iff (P := ListState.Inv) (fun s c hs => listStepOk_iff hs c) ?_ cs inv_listInit
  intro s c s' hs hc hstep
  by_cases hadm : c.Admissible s
  · rcases listStep_cases hs hadm with ⟨hb, -⟩ | ⟨-, t, ht, hinv⟩
    · exact absurd (hc hadm) hb
    · rw [ht] at hstep
      cases hstep
      exact hinv
  · rw [listStep, if_neg hadm] at hstep
    cases hstep

/-- A drive is added, and removed again: it is the only drive, and the links of its neighbours are
changed although it has none. -/
theorem list_onlyDrive_null :
    ¬Runs.Every listStep ListStepOk listInit [.add 0x20000100 0x20000110, .remove 0x20000100] := by
  rintro ⟨-, h⟩
  obtain ⟨h, -⟩ := h _ rfl
  obtain ⟨s', hs', -⟩ := h (by decide)
  cases hs'

end Pico.Vfs
