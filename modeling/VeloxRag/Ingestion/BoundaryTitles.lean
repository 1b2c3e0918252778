import VeloxRag.Ingestion.BoundaryBuilder

/-!
# Title nodes

Each distinct title path of a document is a node of a tree, and the columns hold the
nodes in the order they were added: the bytes of all titles one after another, where
each ends, and the parent of each.  The builder adds nodes only below the part a path
shares with the path before it.

## Main definitions

* `IsPath nodes id path` — the titles on the way from the root to a node.
* `HoldsTitles t nodes` — the title columns of a table.
* `HoldsTitles.titlePath_eq` — reading a node gives its path.
* `titlePathId_spec` — interning a path gives a node with that path.
-/

namespace VeloxRag.Ingestion

structure TitleNode where
  title : Str
  parent : ℕ

/-- The titles on the way from the root to a node; node `i + 1` is the `i`-th of the list and its
parent comes before it. -/
inductive IsPath (nodes : List TitleNode) : ℕ → List Str → Prop
  | root : IsPath nodes 0 []
  | node {i : ℕ} {n : TitleNode} {path : List Str} (hn : nodes[i]? = some n) (hp : n.parent ≤ i)
      (h : IsPath nodes n.parent path) : IsPath nodes (i + 1) (path ++ [n.title])

theorem IsPath.le_length {nodes : List TitleNode} {id : ℕ} {path : List Str}
    (h : IsPath nodes id path) : id ≤ nodes.length := by
  cases h with
  | root => exact Nat.zero_le _
  | node hn _ _ => exact (List.getElem?_eq_some_iff.mp hn).1

theorem IsPath.length_path_le {nodes : List TitleNode} {id : ℕ} {path : List Str}
    (h : IsPath nodes id path) : path.length ≤ id := by
  induction h with
  | root => exact le_refl 0
  | node _ hp _ ih =>
      rw [List.length_append, List.length_singleton]
      omega

/-- Adding nodes changes no path. -/
theorem IsPath.append {nodes : List TitleNode} {id : ℕ} {path : List Str}
    (h : IsPath nodes id path) (more : List TitleNode) : IsPath (nodes ++ more) id path := by
  induction h with
  | root => exact .root
  | node hn hp _ ih =>
      exact .node (by
        rw [List.getElem?_append_left (List.getElem?_eq_some_iff.mp hn).1]
        exact hn) hp ih

/-! ## The columns -/

/-- The bytes of the titles, one after another. -/
def titleBytes (nodes : List TitleNode) : Bytes := nodes.flatMap fun n => encode n.title

/-- Where each title ends, counted from `base`. -/
def titleEnds : ℕ → List TitleNode → List ℕ
  | _, [] => []
  | base, n :: ns => (base + (encode n.title).length) :: titleEnds (base + (encode n.title).length) ns

structure HoldsTitles (t : PackedTable) (nodes : List TitleNode) : Prop where
  data_eq : t.titleData = titleBytes nodes
  ends_eq : t.titleEndOffsets = titleEnds 0 nodes
  parents_eq : t.titleParents = nodes.map (·.parent)
  titles_ne : ∀ n ∈ nodes, n.title ≠ []

theorem titleBytes_append (xs ys : List TitleNode) :
    titleBytes (xs ++ ys) = titleBytes xs ++ titleBytes ys := by
  simp [titleBytes]

theorem length_titleEnds (base : ℕ) (nodes : List TitleNode) :
    (titleEnds base nodes).length = nodes.length := by
  induction nodes generalizing base with
  | nil => rfl
  | cons n ns ih => simp [titleEnds, ih]

theorem getElem?_titleEnds {base i : ℕ} {nodes : List TitleNode} (hi : i < nodes.length) :
    (titleEnds base nodes)[i]? = some (base + (titleBytes (nodes.take (i + 1))).length) := by
  induction nodes generalizing base i with
  | nil => simp at hi
  | cons n ns ih =>
      cases i with
      | zero => simp [titleEnds, titleBytes]
      | succ i =>
          rw [titleEnds, List.getElem?_cons_succ, ih (by simpa using hi)]
          simp [titleBytes, Nat.add_assoc]

theorem titleEnds_append (base : ℕ) (nodes : List TitleNode) (n : TitleNode) :
    titleEnds base (nodes ++ [n]) =
      titleEnds base nodes ++ [base + (titleBytes (nodes ++ [n])).length] := by
  induction nodes generalizing base with
  | nil => simp [titleEnds, titleBytes]
  | cons x xs ih =>
      rw [List.cons_append, titleEnds, titleEnds, ih]
      simp [titleBytes, Nat.add_assoc]

/-- Titles are not empty, so there are no more nodes than bytes. -/
theorem HoldsTitles.length_le {t : PackedTable} {nodes : List TitleNode} (h : HoldsTitles t nodes) :
    nodes.length ≤ t.titleData.length := by
  rw [h.data_eq]
  have hne := h.titles_ne
  clear h
  induction nodes with
  | nil => simp
  | cons n ns ih =>
      have h1 := ih (fun m hm => hne m (by simp [hm]))
      have h2 := length_le_encode n.title
      have h3 := List.length_pos_iff.mpr (hne n (by simp))
      simp only [titleBytes, List.flatMap_cons, List.length_append, List.length_cons] at h1 ⊢
      omega

/-- The bytes of one title are the stretch between two ends. -/
theorem slice_titleBytes {nodes : List TitleNode} {i : ℕ} {n : TitleNode}
    (hn : nodes[i]? = some n) :
    slice (titleBytes nodes) (titleBytes (nodes.take i)).length
      (titleBytes (nodes.take (i + 1))).length = encode n.title := by
  have hlt := (List.getElem?_eq_some_iff.mp hn).1
  have htake : nodes.take (i + 1) = nodes.take i ++ [n] := by
    rw [List.take_add_one, hn]
    rfl
  have hsplit : titleBytes nodes =
      titleBytes (nodes.take i) ++ (encode n.title ++ titleBytes (nodes.drop (i + 1))) := by
    conv_lhs => rw [← List.take_append_drop (i + 1) nodes, titleBytes_append, htake,
      titleBytes_append]
    simp [titleBytes]
  have hlen : (titleBytes (nodes.take (i + 1))).length =
      (titleBytes (nodes.take i)).length + (encode n.title).length := by
    rw [htake, titleBytes_append, List.length_append]
    simp [titleBytes]
  unfold slice
  rw [hlen, hsplit, List.drop_left, Nat.add_sub_cancel_left, List.take_left]

theorem HoldsTitles.decodeTitleNode_eq {t : PackedTable} {nodes : List TitleNode}
    (h : HoldsTitles t nodes) {i : ℕ} {n : TitleNode} (hn : nodes[i]? = some n) :
    t.decodeTitleNode (i + 1) = .ok n.title := by
  have hlt := (List.getElem?_eq_some_iff.mp hn).1
  have hend : t.titleEndOffsets[i]? = some (titleBytes (nodes.take (i + 1))).length := by
    rw [h.ends_eq, getElem?_titleEnds hlt, Nat.zero_add]
  have hstart : t.titleStartOffset i = .ok (titleBytes (nodes.take i)).length := by
    unfold PackedTable.titleStartOffset
    rcases Nat.eq_zero_or_pos i with rfl | hpos
    · simp [titleBytes]
    · have hprev : t.titleEndOffsets[i - 1]? = some (titleBytes (nodes.take i)).length := by
        rw [h.ends_eq, getElem?_titleEnds (by omega), Nat.zero_add, Nat.sub_add_cancel hpos]
      rw [if_neg (by omega), column_eq_ok hprev]
  unfold PackedTable.decodeTitleNode
  simp only [Nat.add_sub_cancel, hstart, column_eq_ok hend, h.data_eq, slice_titleBytes hn,
    decode?_encode, bind, Except.bind]
  rfl

/-- The walk appends the path from the node up, so in reverse. -/
theorem HoldsTitles.titlePathGo_eq {t : PackedTable} {nodes : List TitleNode}
    (h : HoldsTitles t nodes) {id : ℕ} {path : List Str} (hpath : IsPath nodes id path) :
    ∀ (fuel : ℕ) (titles : List Str), path.length ≤ fuel →
      t.titlePathGo fuel id titles = .ok (titles ++ path.reverse) := by
  induction hpath with
  | root =>
      intro fuel titles _
      cases fuel <;> simp [PackedTable.titlePathGo]
  | @node i n path hn hp _ ih =>
      intro fuel titles hfuel
      rw [List.length_append, List.length_singleton] at hfuel
      obtain ⟨fuel, rfl⟩ : ∃ m, fuel = m + 1 := ⟨fuel - 1, by omega⟩
      have hparent : t.titleParents[i]? = some n.parent := by
        rw [h.parents_eq, List.getElem?_map, hn]
        rfl
      simp only [PackedTable.titlePathGo, PackedTable.titleParent, h.decodeTitleNode_eq hn, bind,
        Except.bind, Nat.add_sub_cancel, Nat.succ_ne_zero, if_false, column_eq_ok hparent]
      rw [ih fuel _ (by omega)]
      simp

/-- **Reading a title path** gives the path of the node. -/
theorem HoldsTitles.titlePath_eq {t : PackedTable} {nodes : List TitleNode}
    (h : HoldsTitles t nodes) {id : ℕ} {path : List Str} (hpath : IsPath nodes id path) :
    t.titlePath id = .ok path := by
  have hlen : path.length ≤ t.titleParents.length := by
    rw [h.parents_eq, List.length_map]
    exact le_trans hpath.length_path_le hpath.le_length
  simp [PackedTable.titlePath, h.titlePathGo_eq hpath _ [] hlen, bind, Except.bind, pure,
    Except.pure]

/-! ## Interning a path -/

/-- The nodes of every prefix of a path. -/
structure PathIds (nodes : List TitleNode) (ids : List ℕ) (path : List Str) : Prop where
  length_eq : ids.length = path.length
  isPath : ∀ j id, ids[j]? = some id → IsPath nodes id (path.take (j + 1))

theorem PathIds.last {nodes : List TitleNode} {ids : List ℕ} {path : List Str}
    (h : PathIds nodes ids path) : IsPath nodes (ids.getLast?.getD 0) path := by
  rcases List.eq_nil_or_concat ids with rfl | ⟨ids, id, rfl⟩
  · have : path = [] := List.length_eq_zero_iff.mp h.length_eq.symm
    subst this
    exact .root
  · have hlen := h.length_eq
    rw [List.concat_eq_append] at h hlen ⊢
    rw [List.length_append, List.length_singleton] at hlen
    have := h.isPath ids.length id (by simp)
    rw [hlen, List.take_length] at this
    simpa using this

theorem PathIds.take {nodes : List TitleNode} {ids : List ℕ} {path : List Str}
    (h : PathIds nodes ids path) (k : ℕ) : PathIds nodes (ids.take k) (path.take k) where
  length_eq := by rw [List.length_take, List.length_take, h.length_eq]
  isPath j id hj := by
    have hlt : j < k := by
      have := (List.getElem?_eq_some_iff.mp hj).1
      rw [List.length_take] at this
      omega
    rw [List.getElem?_take_of_lt hlt] at hj
    rw [List.take_take, Nat.min_eq_left (by omega)]
    exact h.isPath j id hj

theorem take_prefixLength (last path : List Str) :
    last.take (prefixLength last path) = path.take (prefixLength last path) := by
  induction last generalizing path with
  | nil => simp [prefixLength]
  | cons p ps ih =>
      cases path with
      | nil => simp [prefixLength]
      | cons c cs =>
          unfold prefixLength
          by_cases hpc : p = c
          · simp [hpc, ih]
          · simp [hpc]

theorem prefixLength_self (path : List Str) : prefixLength path path = path.length := by
  induction path with
  | nil => rfl
  | cons p ps ih => simp [prefixLength, ih]

/-- The bytes a path adds after another one. -/
def newTitleBytes (last path : List Str) : ℕ :=
  ((path.drop (prefixLength last path)).flatMap encode).length

/-- One more node below a path: the path gets longer by its title. -/
theorem HoldsTitles.addNode {t : PackedTable} {nodes : List TitleNode} {parent : ℕ}
    {nodeIds : List ℕ} {base : List Str} {title : Str} (ht : HoldsTitles t nodes)
    (hpath : IsPath nodes parent base) (hids : PathIds nodes nodeIds base) (hne : title ≠ []) :
    HoldsTitles { t with
        titleData := t.titleData ++ encode title
        titleEndOffsets := t.titleEndOffsets ++ [(t.titleData ++ encode title).length]
        titleParents := t.titleParents ++ [parent] } (nodes ++ [⟨title, parent⟩]) ∧
      IsPath (nodes ++ [⟨title, parent⟩]) (nodes.length + 1) (base ++ [title]) ∧
      PathIds (nodes ++ [⟨title, parent⟩]) (nodeIds ++ [nodes.length + 1]) (base ++ [title]) := by
  have hnew : (titleBytes (nodes ++ [⟨title, parent⟩])) = t.titleData ++ encode title := by
    rw [titleBytes_append, ht.data_eq]
    simp [titleBytes]
  have hpath' : IsPath (nodes ++ [⟨title, parent⟩]) (nodes.length + 1) (base ++ [title]) := by
    have hn : (nodes ++ [⟨title, parent⟩])[nodes.length]? = some ⟨title, parent⟩ := by simp
    exact .node hn hpath.le_length (hpath.append _)
  refine ⟨⟨hnew.symm, ?_, ?_, ?_⟩, hpath', by simp [hids.length_eq], ?_⟩
  · rw [titleEnds_append, hnew, ← ht.ends_eq, Nat.zero_add]
  · simp [ht.parents_eq]
  · intro n hn
    rcases List.mem_append.mp hn with hn | hn
    · exact ht.titles_ne n hn
    · rw [List.mem_singleton.mp hn]
      exact hne
  · intro j id hj
    rcases Nat.lt_or_ge j nodeIds.length with hlt | hge
    · rw [List.getElem?_append_left hlt] at hj
      rw [List.take_append_of_le_length (by rw [← hids.length_eq]; omega)]
      exact (hids.isPath j id hj).append _
    · have hlen := (List.getElem?_eq_some_iff.mp hj).1
      rw [List.length_append, List.length_singleton] at hlen
      have hj' : j = nodeIds.length := by omega
      subst hj'
      have hid : id = nodes.length + 1 := by simpa using hj.symm
      rw [hid, List.take_of_length_le (by simp [hids.length_eq])]
      exact hpath'

theorem addTitleNodes_spec : ∀ (titles : List Str) {t : PackedTable} {nodes : List TitleNode}
    {parent : ℕ} {nodeIds : List ℕ} {base : List Str},
    HoldsTitles t nodes → IsPath nodes parent base → PathIds nodes nodeIds base →
    (∀ s ∈ titles, s ≠ []) → t.titleData.length + (titles.flatMap encode).length < 2 ^ 32 →
    ∃ data ends parents more id ids,
      addTitleNodes titles t parent nodeIds = .ok ({ t with
        titleData := data, titleEndOffsets := ends, titleParents := parents }, id, ids) ∧
      HoldsTitles ⟨t.templates, t.segments, data, ends, parents⟩ (nodes ++ more) ∧
      IsPath (nodes ++ more) id (base ++ titles) ∧ PathIds (nodes ++ more) ids (base ++ titles) ∧
      data.length = t.titleData.length + (titles.flatMap encode).length := by
  intro titles
  induction titles with
  | nil =>
      intro t nodes parent nodeIds base ht hpath hids _ _
      exact ⟨t.titleData, t.titleEndOffsets, t.titleParents, [], parent, nodeIds, rfl,
        by rw [List.append_nil]; exact ht, by simpa using hpath, by simpa using hids, by simp⟩
  | cons title titles ih =>
      intro t nodes parent nodeIds base ht hpath hids hne hbytes
      rw [List.flatMap_cons, List.length_append] at hbytes
      have hends : t.titleEndOffsets.length = nodes.length := by
        rw [ht.ends_eq, length_titleEnds]
      have hdata : (t.titleData ++ encode title).length < 2 ^ 32 := by
        rw [List.length_append]
        omega
      have hparent : parent < 2 ^ 32 := by
        have h1 := hpath.le_length
        have h2 := ht.length_le
        omega
      obtain ⟨ht', hpath', hids'⟩ := ht.addNode hpath hids (hne title (by simp))
      obtain ⟨data, ends, parents, more, id, ids, hok, h1, h2, h3, h4⟩ := ih ht' hpath' hids'
        (fun s hs => hne s (by simp [hs])) (by simp only [List.length_append]; omega)
      refine ⟨data, ends, parents, ⟨title, parent⟩ :: more, id, ids, ?_, ?_, ?_, ?_, ?_⟩
      · unfold addTitleNodes
        simp only [fits, hdata, hparent, decide_true, Bool.and_true, if_true, hends]
        exact hok
      · simpa using h1
      · simpa using h2
      · simpa using h3
      · rw [h4, List.flatMap_cons]
        simp only [List.length_append]
        omega

/-- **Interning a title path**: the result is a node with that path, no earlier path changes, and
the columns grow by the new titles only. -/
theorem titlePathId_spec {b : BoundaryBuilder} {nodes : List TitleNode} (hb : b.finished = false)
    (ht : HoldsTitles b.table nodes) (hids : PathIds nodes b.lastTitleNodeIds b.lastTitlePath)
    {titlePath : List Str} (hne : ∀ s ∈ titlePath, s ≠ [])
    (hbytes : b.table.titleData.length + newTitleBytes b.lastTitlePath titlePath < 2 ^ 32) :
    ∃ data ends parents more id ids,
      b.titlePathId titlePath = .ok ({ b with
        table := { b.table with
          titleData := data, titleEndOffsets := ends, titleParents := parents }
        lastTitlePath := titlePath
        lastTitleNodeIds := ids }, id) ∧
      HoldsTitles ⟨b.table.templates, b.table.segments, data, ends, parents⟩ (nodes ++ more) ∧
      IsPath (nodes ++ more) id titlePath ∧ PathIds (nodes ++ more) ids titlePath ∧
      data.length = b.table.titleData.length + newTitleBytes b.lastTitlePath titlePath := by
  unfold BoundaryBuilder.titlePathId
  simp only [hb, Bool.false_eq_true, if_false]
  by_cases hsame : titlePath = b.lastTitlePath
  · refine ⟨b.table.titleData, b.table.titleEndOffsets, b.table.titleParents, [],
      b.lastTitleNodeIds.getLast?.getD 0, b.lastTitleNodeIds, ?_, ?_, ?_, ?_, ?_⟩
    · rw [if_pos hsame, ← hb, hsame]
      rfl
    · rw [List.append_nil]
      exact ht
    · rw [List.append_nil, hsame]
      exact hids.last
    · rw [List.append_nil, hsame]
      exact hids
    · rw [hsame, newTitleBytes, prefixLength_self, List.drop_length]
      rfl
  · have hpre := take_prefixLength b.lastTitlePath titlePath
    unfold newTitleBytes at hbytes ⊢
    generalize prefixLength b.lastTitlePath titlePath = k at hpre hbytes ⊢
    have hids' := hids.take k
    obtain ⟨data, ends, parents, more, id, ids, hok, h1, h2, h3, h4⟩ :=
      addTitleNodes_spec (titlePath.drop k) ht hids'.last hids'
        (fun s hs => hne s (List.mem_of_mem_drop hs)) hbytes
    rw [hpre, List.take_append_drop] at h2 h3
    refine ⟨data, ends, parents, more, id, ids, ?_, h1, h2, h3, h4⟩
    rw [if_neg hsame, ← hb, hok]
    rfl

end VeloxRag.Ingestion
