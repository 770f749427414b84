import ClenshawCode.Proofs.Record
import ClenshawCode.Proofs.Yaml.Nodes
import ClenshawCode.Yaml.Graph.Meaning

/-!
# What the nodes of a saved expansion mean

No node of a saved expansion is met twice. The table and the list of its coefficients are given
cells of their own, the scalars mean what they were written for, and nothing is taken over from
other tables. So the cell of the table holds the entries of the saved expansion, with the cell of
the coefficients among them.

## Main results

* `Yaml.meaning_savedGraph`: the value of a saved expansion
-/

namespace ClenshawCode.Yaml

open Value

variable {description : String} {low high : Tag × Content} {items : List (Tag × Content)} {n : ℕ}
  {v : Value}

/-- The values of the scalars that saved expansions hold, at whatever place they stand. -/
inductive Means : Tag × Content → Value → Prop
  | text (s : String) : Means (.text, .scalar s) (.text s)
  | float {s : String} {v : Value} (read : ∀ place, readFloat place s = .ok v) :
      Means (.float, .scalar s) v

/-- What is written for a double means the double. -/
theorem means_numberNode (x : Float) : Means (Reading.numberNode x) (reread .yaml x) :=
  .float fun place => readFloat_render place x

namespace Drafting

variable {d : Draft} {node : Tag × Content}

theorem run_get (d : Draft) : (get : Drafting Draft).run d = .ok (d, d) := rfl

/-- A text or a double that has not been met before. -/
theorem run_value_scalar (unmade : d.made[n]?.join = none) (known : d.graph.nodes[n]? = some node)
    (means : Means node v) :
    (value n).run d = .ok (v, { d with made := d.made.setIfInBounds n (some v) }) := by
  have tagged : d.graph.tag n = node.1 := by rw [Graph.tag, known]; rfl
  have content : d.graph.content n = node.2 := by rw [Graph.content, known]; rfl
  have scalar : d.graph.scalarMeaning node.1 n = .ok v := by
    rw [Graph.scalarMeaning, Graph.scalarText, content]
    cases means with
    | text s => rfl
    | float read => exact read n
  rw [value, StateT.run_bind, run_get, except_ok_bind]
  cases means <;> simp only [unmade, tagged, StateT.run_bind, scalar] <;> rfl

/-- A list that has not been met before is given a cell. -/
theorem run_value_list {items : List ℕ} (unmade : d.made[n]?.join = none)
    (node : d.graph.nodes[n]? = some (.list, .list items)) :
    (value n).run d = .ok (.shared .list n, { d with
      made := d.made.setIfInBounds n (some (.shared .list n)), waiting := d.waiting ++ [n] }) := by
  have tagged : d.graph.tag n = .list := by rw [Graph.tag, node]; rfl
  rw [value, StateT.run_bind, run_get, except_ok_bind]
  simp only [unmade, tagged]
  rfl

/-- So is a table. -/
theorem run_value_table {entries : List (ℕ × ℕ)} (unmade : d.made[n]?.join = none)
    (node : d.graph.nodes[n]? = some (.table, .table entries)) :
    (value n).run d = .ok (.shared .dict n, { d with
      made := d.made.setIfInBounds n (some (.shared .dict n)), waiting := d.waiting ++ [n] }) := by
  have tagged : d.graph.tag n = .table := by rw [Graph.tag, node]; rfl
  rw [value, StateT.run_bind, run_get, except_ok_bind]
  simp only [unmade, tagged]
  rfl

/-- The cell that waits first is filled. -/
theorem run_fillCells {rest : List ℕ} {d' : Draft} (fuel : ℕ) (waiting : d.waiting = n :: rest)
    (fills : (content n).run { d with waiting := rest } = .ok (v, d')) :
    (fillCells (fuel + 1)).run d =
      (fillCells fuel).run { d' with contents := d'.contents.setIfInBounds n v } := by
  rw [fillCells, StateT.run_bind, run_get, except_ok_bind]
  simp only [waiting]
  change ((content n).run { d with waiting := rest } >>= _) = _
  rw [fills]
  rfl

theorem run_fillCells_nil (fuel : ℕ) (waiting : d.waiting = []) :
    (fillCells fuel).run d = .ok ((), d) := by
  cases fuel with
  | zero => rfl
  | succ fuel =>
    rw [fillCells, StateT.run_bind, run_get, except_ok_bind]
    simp only [waiting]
    rfl

theorem join_setIfInBounds {made : Array (Option Value)} {m : ℕ} (other : m ≠ n) :
    (made.setIfInBounds m (some v))[n]?.join = made[n]?.join := by
  rw [Array.getElem?_setIfInBounds_ne other]

/-- When one more node has been met the others are as they were. -/
theorem join_of_notMem {made : Array (Option Value)} {used : List ℕ}
    (unmade : ∀ n ∉ used, made[n]?.join = none) (m : ℕ) (v : Value) :
    ∀ n ∉ m :: used, (made.setIfInBounds m (some v))[n]?.join = none := by
  intro n other
  obtain ⟨notMade, notUsed⟩ : n ≠ m ∧ n ∉ used := by
    simpa only [List.mem_cons, not_or] using other
  exact (join_setIfInBounds notMade.symm).trans (unmade n notUsed)

/-- The items of a list of scalars that have not been met before. -/
theorem run_mapM_value (d : Draft) (start : ℕ) {vs : List Value}
    (means : List.Forall₂ Means items vs)
    (known : ∀ i node, items[i]? = some node → d.graph.nodes[start + i]? = some node)
    (unmade : ∀ i < items.length, d.made[start + i]?.join = none) :
    ∃ made, ((List.range' start items.length).mapM value).run d = .ok (vs, { d with made }) := by
  induction means generalizing d start with
  | nil => exact ⟨d.made, rfl⟩
  | @cons node v items vs one _ ih =>
    have first := run_value_scalar (unmade 0 (Nat.succ_pos _)) (known 0 node rfl) one
    obtain ⟨made, others⟩ :=
      ih { d with made := d.made.setIfInBounds start (some v) } (start + 1)
        (fun i other member => by
        rw [Nat.add_assoc, Nat.add_comm 1]
        exact known (i + 1) other member)
      (fun i less => by
        rw [join_setIfInBounds (by omega), Nat.add_assoc, Nat.add_comm 1]
        exact unmade (i + 1) (Nat.succ_lt_succ less))
    refine ⟨made, ?_⟩
    rw [List.length_cons, List.range'_succ, List.mapM_cons, StateT.run_bind]
    rw [Nat.add_zero] at first
    rw [first, except_ok_bind, StateT.run_bind, others]
    rfl

/-- One more entry of a table. -/
def addEntry (entries : List (Value × Value)) (numbers : ℕ × ℕ) :
    Drafting (List (Value × Value)) := do
  let key ← value numbers.1
  match key with
  | .shared .. => meaningless "found unhashable key"
  | _ => return insertEntry key (← value numbers.2) entries

theorem run_addEntry (entries : List (Value × Value)) {k m : ℕ} {name : String} {d' d'' : Draft}
    (key : (value k).run d = .ok (.text name, d')) (held : (value m).run d' = .ok (v, d'')) :
    (addEntry entries (k, m)).run d = .ok (insertEntry (.text name) v entries, d'') := by
  rw [addEntry, StateT.run_bind, key, except_ok_bind]
  change ((value m).run d' >>= _) = _
  rw [held]
  rfl

section NewEntries

variable {k : ℕ} {name : String} {used : List ℕ}

/-- An entry with a scalar, neither of whose nodes has been met before. -/
theorem run_addEntry_scalar (entries : List (Value × Value))
    (unmade : ∀ n ∉ used, d.made[n]?.join = none) (new : k ∉ used ∧ k + 1 ∉ used)
    (key : d.graph.nodes[k]? = some (.text, .scalar name))
    (known : d.graph.nodes[k + 1]? = some node) (means : Means node v) :
    ∃ made, (∀ n ∉ (k + 1) :: k :: used, made[n]?.join = none) ∧
      (addEntry entries (k, k + 1)).run d =
        .ok (insertEntry (.text name) v entries, { d with made }) := by
  have named := run_value_scalar (unmade k new.1) key (.text name)
  have unmade' := join_of_notMem unmade k (.text name)
  have held := run_value_scalar (d := { d with made := d.made.setIfInBounds k (some (.text name)) })
    (unmade' (k + 1) (by simp [new.2])) known means
  exact ⟨_, join_of_notMem unmade' (k + 1) v, run_addEntry entries named held⟩

/-- An entry with a list, neither of whose nodes has been met before. -/
theorem run_addEntry_list {items : List ℕ} (entries : List (Value × Value))
    (unmade : ∀ n ∉ used, d.made[n]?.join = none) (new : k ∉ used ∧ k + 1 ∉ used)
    (key : d.graph.nodes[k]? = some (.text, .scalar name))
    (node : d.graph.nodes[k + 1]? = some (.list, .list items)) :
    ∃ made, (∀ n ∉ (k + 1) :: k :: used, made[n]?.join = none) ∧
      (addEntry entries (k, k + 1)).run d =
        .ok (insertEntry (.text name) (.shared .list (k + 1)) entries,
          { d with made, waiting := d.waiting ++ [k + 1] }) := by
  have known := run_value_scalar (unmade k new.1) key (.text name)
  have unmade' := join_of_notMem unmade k (.text name)
  have held := run_value_list (d := { d with made := d.made.setIfInBounds k (some (.text name)) })
    (unmade' (k + 1) (by simp [new.2])) node
  exact ⟨_, join_of_notMem unmade' (k + 1) _, run_addEntry entries known held⟩

end NewEntries

/-- A table that takes nothing over has its own entries. -/
theorem run_tableEntries {entries : List (ℕ × ℕ)} (known : d.graph.content n = .table entries)
    (own : d.graph.takeOver (d.graph.mergeCount + 1) n 0 [] = .ok d.graph) :
    (tableEntries n).run d = (entries.foldlM addEntry []).run d := by
  have listed : d.graph.entries n = entries := by rw [Graph.entries, known]
  rw [tableEntries, StateT.run_bind, run_get, except_ok_bind]
  simp only [known, StateT.run_bind, own]
  change ((d.graph.entries n).foldlM addEntry []).run d = _
  rw [listed]

end Drafting

/-- Nothing is taken over into a table that does not ask for it. -/
theorem takeOver_of_keys {g : Graph} {fuel : ℕ}
    (texts : ∀ entry ∈ g.entries n, g.tag entry.1 = .text) :
    g.takeOver (fuel + 1) n 0 [] = .ok g := by
  have passed : (g.entries n).takeWhile (fun entry => g.tag entry.1 != .merge) = g.entries n := by
    rw [List.takeWhile_eq_self_iff]
    intro entry member
    rw [texts entry member]
    rfl
  have settled (entries : List (ℕ × ℕ)) (texts : ∀ entry ∈ entries, g.tag entry.1 = .text) :
      g.settleKeys entries = g := by
    induction entries with
    | nil => rfl
    | cons entry rest ih =>
      have first : g.tag entry.1 ≠ .value := by
        rw [texts entry List.mem_cons_self]
        decide
      rw [Graph.settleKeys, List.foldl_cons, if_neg first]
      exact ih fun e member => texts e (List.mem_cons_of_mem entry member)
  rw [Graph.takeOver]
  simp only [List.drop_zero, passed, settled _ texts, Nat.zero_add, List.getElem?_eq_none le_rfl]
  rfl

section Saved

/-- The nodes behind those of the coefficients. -/
def behindNodes (description : String) (low high : Tag × Content) : List (Tag × Content) :=
  [(.text, .scalar "description"), (.text, .scalar description), (.text, .scalar "x_max"), high,
    (.text, .scalar "x_min"), low]

theorem nodes_savedGraph (description : String) (low high : Tag × Content)
    (items : List (Tag × Content)) (i : ℕ) :
    (savedGraph description low high items).nodes[i + 3]? =
      (items ++ behindNodes description low high)[i]? := by
  rw [savedGraph, Graph.ofList, List.getElem?_toArray]
  rfl

theorem node_item {i : ℕ} {node : Tag × Content} (known : items[i]? = some node) :
    (savedGraph description low high items).nodes[i + 3]? = some node := by
  obtain ⟨inside, -⟩ := List.getElem?_eq_some_iff.mp known
  rw [nodes_savedGraph, List.getElem?_append_left inside, known]

theorem node_behind (description : String) (low high : Tag × Content)
    (items : List (Tag × Content)) (i : ℕ) :
    (savedGraph description low high items).nodes[items.length + i + 3]? =
      (behindNodes description low high)[i]? := by
  rw [nodes_savedGraph, List.getElem?_append_right (Nat.le_add_right _ _), Nat.add_sub_cancel_left]

/-- The entries of a saved expansion are those of its table. -/
theorem run_savedEntries {d : Draft} (graph : d.graph = savedGraph description low high items)
    (unmade : ∀ n ≠ 0, d.made[n]?.join = none) {lower upper : Value} (lowMeans : Means low lower)
    (highMeans : Means high upper) :
    ∃ made, (∀ i < items.length, made[i + 3]?.join = none) ∧
      (Drafting.tableEntries 0).run d = .ok (Expansion.savedEntries (.shared .list 2)
        (.text description) upper lower, { d with made, waiting := d.waiting ++ [2] }) := by
  have behind (i : ℕ) := node_behind description low high items i
  have front : d.graph.nodes[1]? = some (Tag.text, Content.scalar "coeffs") ∧
      d.graph.nodes[2]? = some (Tag.list, Content.list (List.range' 3 items.length)) := by
    rw [graph]
    exact ⟨rfl, rfl⟩
  rw [← graph] at behind
  have table : d.graph.content 0 = .table (Reading.savedNumbers items.length) := by rw [graph]; rfl
  have texts : ∀ entry ∈ d.graph.entries 0, d.graph.tag entry.1 = .text := by
    have first : d.graph.tag 1 = .text := by rw [Graph.tag, front.1]; rfl
    have second : d.graph.tag (items.length + 3) = .text := by rw [Graph.tag, behind 0]; rfl
    have third : d.graph.tag (items.length + 5) = .text := by rw [Graph.tag, behind 2]; rfl
    have fourth : d.graph.tag (items.length + 7) = .text := by rw [Graph.tag, behind 4]; rfl
    rw [Graph.entries, table]
    simp [Reading.savedNumbers, first, second, third, fourth]
  -- The four entries are added in turn, and none of their nodes has been met before.
  have unmade₀ : ∀ n ∉ [0], d.made[n]?.join = none := fun n other => unmade n (by simpa using other)
  obtain ⟨made₁, unmade₁, coeffs⟩ :=
    Drafting.run_addEntry_list (k := 1) [] unmade₀ (by decide) front.1 front.2
  let d₁ : Draft := { d with made := made₁, waiting := d.waiting ++ [2] }
  obtain ⟨made₂, unmade₂, text⟩ := Drafting.run_addEntry_scalar (d := d₁)
    (insertEntry (.text "coeffs") (.shared .list 2) []) unmade₁
    (k := items.length + 3) (by simp) (behind 0) (behind 1) (.text description)
  obtain ⟨made₃, unmade₃, third⟩ := Drafting.run_addEntry_scalar (d := { d₁ with made := made₂ })
    (insertEntry (.text "description") (.text description) _) unmade₂
    (k := items.length + 5) (by simp) (behind 2) (behind 3) highMeans
  obtain ⟨made₄, unmade₄, fourth⟩ := Drafting.run_addEntry_scalar (d := { d₁ with made := made₃ })
    (insertEntry (.text "x_max") upper _) unmade₃
    (k := items.length + 7) (by simp) (behind 4) (behind 5) lowMeans
  refine ⟨made₄, fun i inside => unmade₄ _ ?_, ?_⟩
  · simp
    omega
  · rw [Drafting.run_tableEntries table (takeOver_of_keys texts), Reading.savedNumbers,
      List.foldlM_cons, StateT.run_bind, coeffs, except_ok_bind, List.foldlM_cons, StateT.run_bind,
      text, except_ok_bind, List.foldlM_cons, StateT.run_bind, third, except_ok_bind,
      List.foldlM_cons, StateT.run_bind, fourth]
    rfl

/-- The items of the coefficients are what their nodes mean. -/
theorem run_savedItems {d : Draft} (graph : d.graph = savedGraph description low high items)
    (unmade : ∀ i < items.length, d.made[i + 3]?.join = none) {vs : List Value}
    (means : List.Forall₂ Means items vs) :
    ∃ made, (Drafting.content 2).run d = .ok (.list vs, { d with made }) := by
  have nodes (i : ℕ) (node : Tag × Content) (known : items[i]? = some node) :
      d.graph.nodes[3 + i]? = some node := by
    rw [graph, Nat.add_comm]
    exact node_item known
  obtain ⟨made, read⟩ := Drafting.run_mapM_value d 3 means nodes fun i inside =>
    Nat.add_comm 3 i ▸ unmade i inside
  have tagged : d.graph.tag 2 = .list := by rw [graph]; rfl
  have known : d.graph.content 2 = .list (List.range' 3 items.length) := by rw [graph]; rfl
  have listed : (Drafting.listItems 2).run d =
      ((List.range' 3 items.length).mapM Drafting.value).run d := by
    rw [Drafting.listItems, StateT.run_bind, Drafting.run_get, except_ok_bind]
    simp only [known]
  refine ⟨made, ?_⟩
  rw [Drafting.content, StateT.run_bind, Drafting.run_get, except_ok_bind]
  simp only [tagged]
  rw [StateT.run_bind, listed, read]
  rfl

/-- The value of a saved expansion: a table in a cell of its own, and its coefficients in another.
-/
theorem meaning_savedGraph (description : String) {lower upper : Value} {vs : List Value}
    (lowMeans : Means low lower) (highMeans : Means high upper)
    (means : List.Forall₂ Means items vs) :
    ∃ cells, (savedGraph description low high items).meaning 0 = .ok ⟨.shared .dict 0, cells⟩ ∧
      cells.get 0 = .dict (Expansion.savedEntries (.shared .list 2) (.text description) upper
        lower) ∧
      cells.get 2 = .list vs := by
  let g := savedGraph description low high items
  let entries := Expansion.savedEntries (.shared .list 2) (.text description) upper lower
  have count : g.next = items.length + 7 + 2 := by
    simp [g, savedGraph, Reading.entryNodes, Reading.listNodes]
  let empty : Draft := {
    graph := g, made := Array.replicate g.next none, contents := Array.replicate g.next .null }
  have none (n : ℕ) : empty.made[n]?.join = none := by
    rw [Array.getElem?_replicate]
    split <;> rfl
  let d : Draft := { empty with made := empty.made.setIfInBounds 0 (some (.shared .dict 0)) }
  have root : (Drafting.value 0).run empty = .ok (.shared .dict 0, { d with waiting := [0] }) :=
    Drafting.run_value_table (none 0) rfl
  obtain ⟨made, unmade, table⟩ := run_savedEntries (d := d) rfl (fun n other =>
    (Drafting.join_setIfInBounds other.symm).trans (none n)) lowMeans highMeans
  have filled :
      (Drafting.content 0).run d = .ok (.dict entries, { d with made, waiting := [2] }) := by
    change ((Drafting.tableEntries 0).run d >>= _) = _
    rw [table]
    rfl
  let contents := d.contents.setIfInBounds 0 (.dict entries)
  obtain ⟨made', listed⟩ := run_savedItems (d := { d with made, contents }) rfl unmade means
  let last : Draft := { d with
    made := made', contents := contents.setIfInBounds 2 (.list vs) }
  have cells : (Drafting.fillCells g.next).run { d with waiting := [0] } = .ok ((), last) := by
    rw [count, Drafting.run_fillCells _ rfl filled, Drafting.run_fillCells _ rfl listed]
    exact Drafting.run_fillCells_nil _ rfl
  let drafting : Drafting Value := do
    let root ← Drafting.value 0
    Drafting.fillCells g.next
    return root
  have drafted : drafting.run empty = .ok (.shared .dict 0, last) := by
    rw [StateT.run_bind, root, except_ok_bind, StateT.run_bind, cells]
    rfl
  refine ⟨⟨last.contents⟩, ?_, ?_, ?_⟩
  · change (drafting.run empty >>= _) = _
    rw [drafted]
    rfl
  · simp [Cells.get, last, contents, d, empty, count, entries]
  · simp [Cells.get, last, contents, d, empty, count]

end Saved

end ClenshawCode.Yaml
