import ClenshawCode.Proofs.Yaml.Written

/-!
# The nodes of a saved expansion

The tokens of a saved expansion are read as a table in which every entry takes a node for its key
and, behind it, those of its value. The node of the coefficients comes before those of its items. As
nodes are numbered in the order in which they begin, every number is known from the number of
coefficients alone.

## Main definitions

* `Yaml.savedGraph`: the nodes of a saved expansion by number

## Main results

* `Yaml.ofTokens_savedTokens`: the nodes that the tokens of a saved expansion make up
-/

namespace ClenshawCode.Yaml

namespace Graph

variable {tag : Tag} {c d : Content} {ns ms : List (Tag × Content)}

/-- The graph of some nodes. -/
def ofList (ns : List (Tag × Content)) : Graph := ⟨ns.toArray⟩

@[simp] theorem next_ofList : (ofList ns).next = ns.length := rfl

@[simp] theorem add_ofList : (ofList ns).add tag c = ofList (ns ++ [(tag, c)]) :=
  congrArg Graph.mk (List.push_toArray ns (tag, c))

theorem setContent_ofList :
    (ofList (ns ++ (tag, c) :: ms)).setContent ns.length d = ofList (ns ++ (tag, d) :: ms) := by
  refine congrArg Graph.mk ?_
  rw [ofList, List.modify_toArray]
  exact congrArg List.toArray (List.modifyTailIdx_add _ 0 ns ((tag, c) :: ms))

end Graph

namespace Reading

variable {s s' : Source} {ts : List Token} {ns : List (Tag × Content)}

/-- A list or table has its content as soon as that has been read. -/
theorem run_collection {r : Reading Content} {tag : Tag} {c : Content} (s : Source)
    (ns ms : List (Tag × Content)) (ts : List Token) (shallow : s.depth < maxDepth)
    (contents : r.run { s with graph := .ofList (ns ++ [(tag, .list [])]), depth := s.depth + 1 } =
      .ok (c, { s with
        tokens := ts, graph := .ofList (ns ++ (tag, .list []) :: ms), depth := s.depth + 1 })) :
    (collection {} tag r).run { s with graph := .ofList ns } =
      .ok (ns.length, { s with tokens := ts, graph := .ofList (ns ++ (tag, c) :: ms) }) := by
  -- The node is there, without content, before anything in it is read.
  let begun : Source := { s with graph := .ofList (ns ++ [(tag, .list [])]) }
  have inner : (inside r).run begun =
      .ok (c, { s with tokens := ts, graph := .ofList (ns ++ (tag, .list []) :: ms) }) := by
    have known : (get : Reading Source).run begun = .ok (begun, begun) := rfl
    rw [inside, StateT.run_bind, known, except_ok_bind, if_neg (Nat.not_le.mpr shallow)]
    change (r.run { begun with depth := begun.depth + 1 } >>= _) = _
    rw [contents]
    rfl
  have added : (collection {} tag r).run { s with graph := .ofList ns } =
      ((inside r).run { s with graph := (Graph.ofList ns).add tag (.list []) } >>= fun p =>
        .ok (ns.length, { p.2 with graph := p.2.graph.setContent ns.length p.1 })) := rfl
  rw [added, Graph.add_ofList, inner, except_ok_bind, Graph.setContent_ofList]

/-- An entry is read as its key and its value. -/
theorem blockEntries_entry (fuel : ℕ) (name : String) {t : Token} {v : ℕ}
    (begins : endsPart t = false)
    (value : (node (fuel + 1) .blockTable).run { s with
      tokens := t :: ts, graph := s.graph.add (scalarTag none true name) (.scalar name) } =
        .ok (v, s')) :
    (blockEntries (fuel + 3)).run { s with
        tokens := .key :: .scalar true name :: .value :: t :: ts } =
      (List.cons (s.graph.next, v) <$> blockEntries (fuel + 2)).run s' := by
  let keyed : Source := { s with
    tokens := t :: ts, graph := s.graph.add (scalarTag none true name) (.scalar name) }
  have part : (do if endsPart (← peek) then addEmpty else node (fuel + 1) .blockTable).run keyed =
      .ok (v, s') := by
    change (if endsPart t then addEmpty else node (fuel + 1) .blockTable).run keyed = _
    rw [begins, if_neg Bool.false_ne_true]
    exact value
  change ((do if endsPart (← peek) then addEmpty else node (fuel + 1) .blockTable).run keyed >>=
    fun p => (List.cons (s.graph.next, p.1) <$> blockEntries (fuel + 2)).run p.2) = _
  rw [part]
  rfl

theorem node_scalar (s : Source) (fuel : ℕ) (context : Context) (plain : Bool) (content : String)
    (ts : List Token) :
    (node (fuel + 1) context).run { s with tokens := .scalar plain content :: ts } =
      .ok (s.graph.next, { s with
        tokens := ts
        graph := s.graph.add (scalarTag none plain content) (.scalar content) }) := rfl

/-- An entry with a scalar. -/
theorem blockEntries_scalar (s : Source) (ns : List (Tag × Content)) (fuel : ℕ)
    {name content : String} {plain : Bool} {tag : Tag}
    (text : Tag.ofPlain name.toList = .text) (known : scalarTag none plain content = tag) :
    (blockEntries (fuel + 3)).run { s with
        tokens := .key :: .scalar true name :: .value :: .scalar plain content :: ts
        graph := .ofList ns } =
      (List.cons (ns.length, ns.length + 1) <$> blockEntries (fuel + 2)).run { s with
        tokens := ts
        graph := .ofList (ns ++ [(.text, .scalar name), (tag, .scalar content)]) } := by
  have key : scalarTag none true name = .text := text
  have value := node_scalar { s with graph := .ofList (ns ++ [(.text, .scalar name)]) } fuel
    .blockTable plain content ts
  rw [known, Graph.add_ofList, Graph.next_ofList, List.length_append, List.append_assoc] at value
  refine blockEntries_entry (s := { s with graph := .ofList ns }) fuel name rfl ?_
  rw [key, Graph.add_ofList]
  exact value

/-- The node of a double. -/
def numberNode (x : Float) : Tag × Content := (.float, .scalar (floatLayout.render x))

theorem flatItems_scalar (s : Source) (fuel : ℕ) (plain : Bool) (content : String)
    (ts : List Token) :
    (flatItems (fuel + 2)).run { s with tokens := .blockEntry :: .scalar plain content :: ts } =
      (List.cons s.graph.next <$> flatItems (fuel + 1)).run { s with
        tokens := ts, graph := s.graph.add (scalarTag none plain content) (.scalar content) } := rfl

theorem flatItems_end (s : Source) (fuel : ℕ) {t : Token} (other : t ≠ .blockEntry) :
    (flatItems (fuel + 1)).run { s with tokens := t :: ts } =
      .ok ([], { s with tokens := t :: ts }) := by
  cases t <;> first | rfl | exact absurd rfl other

/-- The items of a list of doubles. -/
theorem flatItems_numbers (s : Source) (ns : List (Tag × Content)) (fuel : ℕ) (xs : List Float)
    {t : Token} (ts : List Token) (other : t ≠ .blockEntry) :
    (flatItems (fuel + xs.length + 1)).run { s with
        tokens :=
          (xs.flatMap fun x => [Token.blockEntry, .scalar true (floatLayout.render x)]) ++ t :: ts
        graph := .ofList ns } =
      .ok (List.range' ns.length xs.length,
        { s with tokens := t :: ts, graph := .ofList (ns ++ xs.map numberNode) }) := by
  induction xs generalizing ns with
  | nil =>
    rw [List.map_nil, List.append_nil]
    exact flatItems_end { s with graph := .ofList ns } fuel other
  | cons x xs ih =>
    have number : scalarTag none true (floatLayout.render x) = .float := ofPlain_render x
    -- An item adds its node behind those that there are.
    have first := flatItems_scalar { s with graph := .ofList ns } (fuel + xs.length) true
      (floatLayout.render x)
      ((xs.flatMap fun x => [Token.blockEntry, .scalar true (floatLayout.render x)]) ++ t :: ts)
    have others := ih (ns ++ [numberNode x])
    rw [number, Graph.add_ofList, ← numberNode, StateT.run_map, others, List.length_append,
      List.append_assoc] at first
    exact first

theorem exists_listTokens (xs : List Float) :
    ∃ t rest, listTokens xs = t :: rest ∧ endsPart t = false := by
  cases xs with
  | nil => exact ⟨_, _, rfl, rfl⟩
  | cons x xs => exact ⟨_, _, rfl, rfl⟩

/-- The nodes of a list of scalars that begins at a number. -/
def listNodes (n : ℕ) (items : List (Tag × Content)) : List (Tag × Content) :=
  (.list, .list (List.range' (n + 1) items.length)) :: items

/-- A list of doubles is read as its node and those of its items. -/
theorem node_list (s : Source) (ns : List (Tag × Content)) (fuel : ℕ) (xs : List Float) {t : Token}
    (ts : List Token) (other : t ≠ .blockEntry) (shallow : s.depth < maxDepth) :
    (node (fuel + xs.length + 2) .blockTable).run { s with
        tokens := listTokens xs ++ t :: ts, graph := .ofList ns } =
      .ok (ns.length,
        { s with
          tokens := t :: ts
          graph := .ofList (ns ++ listNodes ns.length (xs.map numberNode)) }) := by
  rw [listNodes, List.length_map]
  cases xs with
  | nil =>
    exact run_collection { s with tokens := listTokens [] ++ t :: ts } ns [] (t :: ts) shallow rfl
  | cons x xs =>
    have items := flatItems_numbers { s with depth := s.depth + 1 }
      (ns ++ [(Tag.list, Content.list [])]) fuel (x :: xs) ts other
    rw [List.length_append, List.append_assoc] at items
    refine run_collection (r := .list <$> flatItems (fuel + (x :: xs).length + 1))
      { s with tokens := listTokens (x :: xs) ++ t :: ts } ns ((x :: xs).map numberNode)
      (t :: ts) shallow ?_
    rw [StateT.run_map]
    exact congrArg _ items

/-- The numbers of the keys and values of a saved expansion with some coefficients. -/
def savedNumbers (count : ℕ) : List (ℕ × ℕ) :=
  [(1, 2), (count + 3, count + 4), (count + 5, count + 6), (count + 7, count + 8)]

/-- The nodes of the entries of a saved expansion, given those of its bounds and coefficients. -/
def entryNodes (description : String) (low high : Tag × Content) (items : List (Tag × Content)) :
    List (Tag × Content) :=
  (.text, .scalar "coeffs") :: (listNodes 2 items ++
    [(.text, .scalar "description"), (.text, .scalar description),
      (.text, .scalar "x_max"), high, (.text, .scalar "x_min"), low])

/-- The entries of a saved expansion behind the first one. -/
theorem blockEntries_behind (s : Source) (ns : List (Tag × Content)) (fuel : ℕ) {plain : Bool}
    {description : String} (tag : scalarTag none plain description = .text) (lower upper : Float) :
    (blockEntries (fuel + 6)).run { s with
        tokens := [.key, .scalar true "description", .value, .scalar plain description,
          .key, .scalar true "x_max", .value, .scalar true (floatLayout.render upper),
          .key, .scalar true "x_min", .value, .scalar true (floatLayout.render lower),
          .blockEnd, .streamEnd]
        graph := .ofList ns } =
      .ok ([(ns.length, ns.length + 1), (ns.length + 2, ns.length + 3),
        (ns.length + 4, ns.length + 5)], { s with
          tokens := [.streamEnd]
          graph := .ofList (ns ++ [(.text, .scalar "description"), (.text, .scalar description),
            (.text, .scalar "x_max"), numberNode upper, (.text, .scalar "x_min"),
            numberNode lower]) }) := by
  have number (x : Float) : scalarTag none true (floatLayout.render x) = .float := ofPlain_render x
  rw [blockEntries_scalar s _ (fuel + 3) (by decide) tag, StateT.run_map,
    blockEntries_scalar s _ (fuel + 2) (by decide) (number upper), StateT.run_map,
    blockEntries_scalar s _ (fuel + 1) (by decide) (number lower), StateT.run_map]
  simp only [List.append_assoc, List.length_append]
  rfl

/-- The entries of a saved expansion. -/
theorem blockEntries_saved (s : Source) (fuel : ℕ) {plain : Bool} {description : String}
    (tag : scalarTag none plain description = .text) (lower upper : Float) (xs : List Float)
    (shallow : s.depth < maxDepth) :
    (blockEntries (fuel + xs.length + 7)).run { s with
        tokens := (savedTokens plain description lower upper xs).tail
        graph := .ofList [(.table, .list [])] } =
      .ok (savedNumbers xs.length, { s with
        tokens := [.streamEnd]
        graph := .ofList ((.table, .list []) ::
          entryNodes description (numberNode lower) (numberNode upper) (xs.map numberNode)) }) := by
  let behind : List Token :=
    [.key, .scalar true "description", .value, .scalar plain description,
      .key, .scalar true "x_max", .value, .scalar true (floatLayout.render upper),
      .key, .scalar true "x_min", .value, .scalar true (floatLayout.render lower),
      .blockEnd, .streamEnd]
  let keyed : List (Tag × Content) := [(.table, .list []), (.text, .scalar "coeffs")]
  -- The list of coefficients begins with some token, which ends no entry.
  obtain ⟨t, rest, first, begins⟩ := exists_listTokens xs
  have tokens : (savedTokens plain description lower upper xs).tail =
      .key :: .scalar true "coeffs" :: .value :: t :: (rest ++ behind) := by
    rw [savedTokens, List.tail_cons, first]
    rfl
  have value : (node (fuel + xs.length + 5) .blockTable).run { s with
      tokens := t :: (rest ++ behind), graph := .ofList keyed } =
        .ok (2, { s with
          tokens := behind, graph := .ofList (keyed ++ listNodes 2 (xs.map numberNode)) }) := by
    have read := node_list s keyed (fuel + 3) xs (t := .key) behind.tail (by decide) shallow
    rw [first, Nat.add_right_comm fuel] at read
    exact read
  have entry := blockEntries_entry (s := { s with graph := .ofList [(.table, .list [])] })
    (fuel + xs.length + 4) "coeffs" begins value
  have others := blockEntries_behind s (keyed ++ listNodes 2 (xs.map numberNode))
    (fuel + xs.length) tag lower upper
  have count : (keyed ++ listNodes 2 (xs.map numberNode)).length = xs.length + 3 := by
    simp [keyed, listNodes]
  rw [tokens, entry, StateT.run_map, others, count, List.append_assoc]
  rfl

end Reading

/-- The nodes of a saved expansion by number, given those of its bounds and coefficients. -/
def savedGraph (description : String) (low high : Tag × Content) (items : List (Tag × Content)) :
    Graph :=
  .ofList ((.table, .table (Reading.savedNumbers items.length)) ::
    Reading.entryNodes description low high items)

/-- A document that is one node and is not set off. -/
theorem ofTokens_of_node {t : Token} {ts : List Token} {n : ℕ} {graph : Graph}
    (begins : Reading.isSetOff t = false)
    (root : (Reading.node (4 * (t :: ts).length + 16) .block).run
        { tokens := t :: ts, fault := none, handles := Reading.standardHandles } =
      .ok (n,
        { tokens := [.streamEnd], fault := none, handles := Reading.standardHandles, graph })) :
    Graph.ofTokens (t :: ts) none = .ok (some n, graph) := by
  let s : Source := { tokens := t :: ts, fault := none, handles := Reading.standardHandles }
  have body : (Reading.documentBody (4 * (t :: ts).length + 16) false).run s =
      .ok (n, { s with tokens := [.streamEnd], graph }) := by
    change ((Reading.node (4 * (t :: ts).length + 16) .block).run s >>= _) = _
    rw [root]
    rfl
  have document : (Reading.document (4 * (t :: ts).length + 16)).run
      { tokens := t :: ts, fault := none } =
        .ok (some n, { s with tokens := [.streamEnd], graph, handles := [] }) := by
    have next : Reading.peek.run { tokens := t :: ts, fault := none } =
        .ok (t, { tokens := t :: ts, fault := none }) := rfl
    rw [Reading.document, StateT.run_bind, next, except_ok_bind, begins, if_neg Bool.false_ne_true]
    change ((Reading.documentBody (4 * (t :: ts).length + 16) false).run s >>= _) = _
    rw [body]
    rfl
  rw [Graph.ofTokens, document]
  rfl

/-- The tokens of a saved expansion make up its nodes. -/
theorem ofTokens_savedTokens {plain : Bool} {description : String}
    (tag : Reading.scalarTag none plain description = .text) (lower upper : Float)
    (xs : List Float) :
    Graph.ofTokens (savedTokens plain description lower upper xs) none =
      .ok (some 0, savedGraph description (Reading.numberNode lower) (Reading.numberNode upper)
        (xs.map Reading.numberNode)) := by
  let ts := savedTokens plain description lower upper xs
  let nodes := Reading.entryNodes description (Reading.numberNode lower) (Reading.numberNode upper)
    (xs.map Reading.numberNode)
  let s : Source := { tokens := ts, fault := none, handles := Reading.standardHandles }
  -- There is more fuel than tokens, and every coefficient has two.
  obtain ⟨fuel, total⟩ : ∃ fuel, 4 * ts.length + 16 = fuel + xs.length + 8 := by
    have items : xs.length ≤ (listTokens xs).length := by
      cases xs <;> simp [listTokens]
      omega
    have whole : (listTokens xs).length ≤ ts.length := by
      simp [ts, savedTokens]
      omega
    exact ⟨4 * ts.length + 8 - xs.length, by omega⟩
  have entries := Reading.blockEntries_saved { s with depth := 1 } fuel tag lower upper xs
    (by decide : 1 < maxDepth)
  have root : (Reading.node (fuel + xs.length + 8) .block).run s =
      .ok (0, { s with
        tokens := [.streamEnd]
        graph := .ofList ((.table, .table (Reading.savedNumbers xs.length)) :: nodes) }) := by
    refine Reading.run_collection (r := do
      Reading.skip
      return .table (← Reading.blockEntries (fuel + xs.length + 7))) s []
      nodes [.streamEnd] (by decide : 0 < maxDepth) ?_
    change (Content.table <$> Reading.blockEntries (fuel + xs.length + 7)).run _ = _
    rw [StateT.run_map]
    exact congrArg _ entries
  rw [savedGraph, List.length_map]
  exact ofTokens_of_node rfl (total ▸ root)

end ClenshawCode.Yaml
