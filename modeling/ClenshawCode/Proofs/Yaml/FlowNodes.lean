import ClenshawCode.Proofs.Yaml.Nodes

/-!
# The nodes of a saved expansion in flow context

In flow context every entry has the mark of its key, and commas stand between the parts of lists and
tables. The nodes that the tokens make up are those of a table in block context, with the same
numbers: those of the keys and values in turn, and behind the one of a list those of its items.

## Main definitions

* `Yaml.flowTokens`: the tokens of a saved expansion in flow context

## Main results

* `Yaml.ofTokens_flowTokens`: the nodes that they make up
-/

namespace ClenshawCode.Yaml

/-- One part behind others, each with a separator in front. -/
theorem intercalate_cons {α : Type} (separator part : List α) (parts : List (List α)) :
    separator.intercalate (part :: parts) = part ++ parts.flatMap (separator ++ ·) := by
  induction parts generalizing part with
  | nil => simp
  | cons next parts ih => simp [List.intercalate_cons_cons, ih]

/-- The tokens of a list of words. -/
def itemTokens (ws : List String) : List Token :=
  .flowListStart ::
    ([Token.flowEntry].intercalate (ws.map fun w => [Token.scalar true w]) ++ [Token.flowListEnd])

/-- The tokens of an entry. -/
def entryTokens (name : String) (value : List Token) : List Token :=
  .key :: .scalar false name :: .value :: value

/-- The tokens of a saved expansion in flow context, given the words for its numbers. -/
def flowTokens (description low high : String) (ws : List String) : List Token :=
  .flowTableStart ::
    ([Token.flowEntry].intercalate
      [entryTokens "coeffs" (itemTokens ws), entryTokens "description" [.scalar false description],
        entryTokens "x_max" [.scalar true high], entryTokens "x_min" [.scalar true low]] ++
      [Token.flowTableEnd])

namespace Reading

variable {s s' : Source} {ts : List Token} {ns : List (Tag × Content)}

/-- The node of a word without quotes. -/
def plainNode (w : String) : Tag × Content := (Tag.ofPlain w.toList, .scalar w)

/-- The separator in front of a part, unless it is the first one. -/
def comma (first : Bool) : List Token := if first then [] else [.flowEntry]

theorem flowItems_scalar (s : Source) (fuel : ℕ) (first : Bool) (w : String) (ts : List Token) :
    (flowItems (fuel + 2) first).run { s with tokens := comma first ++ Token.scalar true w :: ts } =
      (List.cons s.graph.next <$> flowItems (fuel + 1) false).run { s with
        tokens := ts, graph := s.graph.add (plainNode w).1 (plainNode w).2 } := by
  cases first <;> rfl

/-- The items of a list of words. -/
theorem flowItems_words (s : Source) (ns : List (Tag × Content)) (fuel : ℕ) (ws : List String)
    (ts : List Token) :
    (flowItems (fuel + ws.length + 1) false).run { s with
        tokens := (ws.flatMap fun w => [Token.flowEntry, .scalar true w]) ++ Token.flowListEnd :: ts
        graph := .ofList ns } =
      .ok (List.range' ns.length ws.length,
        { s with tokens := ts, graph := .ofList (ns ++ ws.map plainNode) }) := by
  induction ws generalizing ns with
  | nil =>
    rw [List.map_nil, List.append_nil]
    rfl
  | cons w ws ih =>
    have first := flowItems_scalar { s with graph := .ofList ns } (fuel + ws.length) false w
      ((ws.flatMap fun w => [Token.flowEntry, .scalar true w]) ++ Token.flowListEnd :: ts)
    have others := ih (ns ++ [plainNode w])
    rw [Graph.add_ofList, StateT.run_map, others, List.length_append, List.append_assoc] at first
    exact first

/-- The first one has no comma in front of it. -/
theorem flowItems_all (s : Source) (ns : List (Tag × Content)) (fuel : ℕ) (ws : List String)
    (ts : List Token) :
    (flowItems (fuel + ws.length + 1) true).run { s with
        tokens := [Token.flowEntry].intercalate (ws.map fun w => [Token.scalar true w]) ++
          Token.flowListEnd :: ts
        graph := .ofList ns } =
      .ok (List.range' ns.length ws.length,
        { s with tokens := ts, graph := .ofList (ns ++ ws.map plainNode) }) := by
  cases ws with
  | nil =>
    rw [List.map_nil, List.map_nil, List.append_nil]
    rfl
  | cons w ws =>
    have first := flowItems_scalar { s with graph := .ofList ns } (fuel + ws.length) true w
      ((ws.flatMap fun w => [Token.flowEntry, .scalar true w]) ++ Token.flowListEnd :: ts)
    have others := flowItems_words s (ns ++ [plainNode w]) fuel ws ts
    rw [Graph.add_ofList, StateT.run_map, others, List.length_append, List.append_assoc] at first
    rw [List.map_cons, intercalate_cons, List.flatMap_map]
    exact first

/-- A list of words is read as its node and those of its items. -/
theorem node_flowList (s : Source) (ns : List (Tag × Content)) (fuel : ℕ) (ws : List String)
    (ts : List Token) (shallow : s.depth < maxDepth) :
    (node (fuel + ws.length + 2) .flow).run { s with
        tokens := itemTokens ws ++ ts, graph := .ofList ns } =
      .ok (ns.length, { s with
        tokens := ts, graph := .ofList (ns ++ listNodes ns.length (ws.map plainNode)) }) := by
  have items := flowItems_all { s with depth := s.depth + 1 } (ns ++ [(Tag.list, Content.list [])])
    fuel ws ts
  rw [List.length_append, List.append_assoc] at items
  rw [listNodes, List.length_map]
  refine run_collection (r := do
    skip
    return .list (← flowItems (fuel + ws.length + 1) true))
    { s with tokens := itemTokens ws ++ ts } ns (ws.map plainNode) ts shallow ?_
  rw [itemTokens, List.cons_append, List.append_assoc]
  change (Content.list <$> flowItems (fuel + ws.length + 1) true).run _ = _
  rw [StateT.run_map]
  exact congrArg _ items

/-- An entry is read as its key and its value. -/
theorem flowEntries_entry (fuel : ℕ) (first : Bool) (name : String) {t : Token} {v : ℕ}
    (begins : endsFlowPart .flowTableEnd t = false)
    (value : (node (fuel + 1) .flow).run { s with
      tokens := t :: ts, graph := s.graph.add .text (.scalar name) } = .ok (v, s')) :
    (flowEntries (fuel + 3) first).run { s with
        tokens := comma first ++ entryTokens name (t :: ts) } =
      (List.cons (s.graph.next, v) <$> flowEntries (fuel + 2) false).run s' := by
  let keyed : Source := { s with
    tokens := t :: ts, graph := s.graph.add .text (.scalar name) }
  have part : (do
      if endsFlowPart .flowTableEnd (← peek) then addEmpty else node (fuel + 1) .flow).run keyed =
        .ok (v, s') := by
    change (if endsFlowPart .flowTableEnd t then addEmpty else node (fuel + 1) .flow).run keyed = _
    rw [begins, if_neg Bool.false_ne_true]
    exact value
  have entry : (flowEntries (fuel + 3) first).run { s with
      tokens := comma first ++ entryTokens name (t :: ts) } =
        ((do if endsFlowPart .flowTableEnd (← peek) then addEmpty else node (fuel + 1) .flow).run
          keyed >>= fun p =>
            (List.cons (s.graph.next, p.1) <$> flowEntries (fuel + 2) false).run p.2) := by
    cases first <;> rfl
  rw [entry, part]
  rfl

/-- An entry with a scalar. -/
theorem flowEntries_scalar (s : Source) (ns : List (Tag × Content)) (fuel : ℕ)
    (name content : String) {plain : Bool} {tag : Tag}
    (known : scalarTag none plain content = tag) :
    (flowEntries (fuel + 3) false).run { s with
        tokens := .flowEntry :: entryTokens name (.scalar plain content :: ts)
        graph := .ofList ns } =
      (List.cons (ns.length, ns.length + 1) <$> flowEntries (fuel + 2) false).run { s with
        tokens := ts
        graph := .ofList (ns ++ [(.text, .scalar name), (tag, .scalar content)]) } := by
  have value := node_scalar { s with graph := .ofList (ns ++ [(.text, .scalar name)]) } fuel
    .flow plain content ts
  rw [known, Graph.add_ofList, Graph.next_ofList, List.length_append, List.append_assoc] at value
  refine flowEntries_entry (s := { s with graph := .ofList ns }) fuel false name rfl ?_
  rw [Graph.add_ofList]
  exact value

/-- The tokens of the entries behind the first one, to the end of the text. -/
def behindTokens (description low high : String) : List Token :=
  .flowEntry :: entryTokens "description" (.scalar false description ::
    .flowEntry :: entryTokens "x_max" (.scalar true high ::
      .flowEntry :: entryTokens "x_min" [.scalar true low, .flowTableEnd, .streamEnd]))

/-- The entries of a saved expansion behind the first one. -/
theorem flowEntries_behind (s : Source) (ns : List (Tag × Content)) (fuel : ℕ)
    (description low high : String) :
    (flowEntries (fuel + 6) false).run { s with
        tokens := behindTokens description low high, graph := .ofList ns } =
      .ok ([(ns.length, ns.length + 1), (ns.length + 2, ns.length + 3),
        (ns.length + 4, ns.length + 5)], { s with
          tokens := [.streamEnd]
          graph := .ofList (ns ++ [(.text, .scalar "description"), (.text, .scalar description),
            (.text, .scalar "x_max"), plainNode high, (.text, .scalar "x_min"),
            plainNode low]) }) := by
  have number (w : String) : scalarTag none true w = (plainNode w).1 := rfl
  rw [behindTokens, flowEntries_scalar s _ (fuel + 3) "description" description rfl, StateT.run_map,
    flowEntries_scalar s _ (fuel + 2) "x_max" high (number high), StateT.run_map,
    flowEntries_scalar s _ (fuel + 1) "x_min" low (number low), StateT.run_map]
  simp only [List.append_assoc, List.length_append]
  rfl

/-- The entries of a saved expansion. -/
theorem flowEntries_saved (s : Source) (fuel : ℕ) (description low high : String)
    (ws : List String) (shallow : s.depth < maxDepth) :
    (flowEntries (fuel + ws.length + 7) true).run { s with
        tokens := entryTokens "coeffs" (itemTokens ws ++ behindTokens description low high)
        graph := .ofList [(.table, .list [])] } =
      .ok (savedNumbers ws.length, { s with
        tokens := [.streamEnd]
        graph := .ofList ((.table, .list []) ::
          entryNodes description (plainNode low) (plainNode high) (ws.map plainNode)) }) := by
  let behind := behindTokens description low high
  let keyed : List (Tag × Content) := [(.table, .list []), (.text, .scalar "coeffs")]
  have value : (node (fuel + ws.length + 5) .flow).run { s with
      tokens := itemTokens ws ++ behind, graph := .ofList keyed } =
        .ok (2, { s with
          tokens := behind, graph := .ofList (keyed ++ listNodes 2 (ws.map plainNode)) }) := by
    have read := node_flowList s keyed (fuel + 3) ws behind shallow
    rwa [Nat.add_right_comm fuel] at read
  have entry := flowEntries_entry (s := { s with graph := .ofList [(.table, .list [])] })
    (fuel + ws.length + 4) true "coeffs" rfl value
  have others := flowEntries_behind s (keyed ++ listNodes 2 (ws.map plainNode)) (fuel + ws.length)
    description low high
  have count : (keyed ++ listNodes 2 (ws.map plainNode)).length = ws.length + 3 := by
    simp [keyed, listNodes]
  refine entry.trans ?_
  rw [StateT.run_map, others, count, List.append_assoc]
  rfl

end Reading

theorem flowTokens_eq (description low high : String) (ws : List String) :
    flowTokens description low high ws ++ [Token.streamEnd] =
      .flowTableStart ::
        entryTokens "coeffs" (itemTokens ws ++ Reading.behindTokens description low high) := by
  simp [flowTokens, entryTokens, Reading.behindTokens, intercalate_cons]

/-- The tokens of a saved expansion in flow context make up its nodes. -/
theorem ofTokens_flowTokens (description low high : String) (ws : List String) :
    Graph.ofTokens (flowTokens description low high ws ++ [Token.streamEnd]) none =
      .ok (some 0, savedGraph description (Reading.plainNode low) (Reading.plainNode high)
        (ws.map Reading.plainNode)) := by
  rw [flowTokens_eq]
  let ts : List Token := .flowTableStart ::
    entryTokens "coeffs" (itemTokens ws ++ Reading.behindTokens description low high)
  let nodes := Reading.entryNodes description (Reading.plainNode low) (Reading.plainNode high)
    (ws.map Reading.plainNode)
  let numbers : Tag × Content := (.table, .table (Reading.savedNumbers ws.length))
  let s : Source := { tokens := ts, fault := none, handles := Reading.standardHandles }
  have graph : savedGraph description (Reading.plainNode low) (Reading.plainNode high)
      (ws.map Reading.plainNode) = .ofList (numbers :: nodes) := by
    rw [savedGraph, List.length_map]
  -- There is more fuel than tokens, and every coefficient has one.
  obtain ⟨fuel, total⟩ : ∃ fuel, 4 * ts.length + 16 = fuel + ws.length + 8 := by
    have items : ws.length ≤ (itemTokens ws).length := by
      cases ws <;> simp [itemTokens, intercalate_cons, Function.comp_def]
      omega
    have whole : (itemTokens ws).length ≤ ts.length := by
      simp [ts, entryTokens]
      omega
    exact ⟨4 * ts.length + 8 - ws.length, by omega⟩
  have entries := Reading.flowEntries_saved { s with depth := 1 } fuel description low high ws
    (by decide : 1 < maxDepth)
  have root : (Reading.node (fuel + ws.length + 8) .block).run s =
      .ok (0, { s with tokens := [.streamEnd], graph := .ofList (numbers :: nodes) }) := by
    refine Reading.run_collection (r := do
      Reading.skip
      return .table (← Reading.flowEntries (fuel + ws.length + 7) true)) s [] nodes [.streamEnd]
      (by decide : 0 < maxDepth) ?_
    change (Content.table <$> Reading.flowEntries (fuel + ws.length + 7) true).run _ = _
    rw [StateT.run_map]
    exact congrArg _ entries
  rw [graph]
  exact ofTokens_of_node rfl (total ▸ root)

end ClenshawCode.Yaml
