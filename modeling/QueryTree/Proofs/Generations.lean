import QueryTree.Proofs.JsonText
import QueryTree.Proofs.WireForms

/-! How deep a tree may be to survive its own text. A generation of nodes costs two levels
of nesting, its object and its list of children; the last one costs its object, its
payload and possibly the list of column names. A text is read with 127 levels,
so the limit lies between 63 generations and 64. -/

namespace QueryTree

theorem Json.depth_le_iff (value : Json) (levels : Nat) :
    value.depth ≤ levels + 1 ↔ ∀ part ∈ value.parts, part.depth ≤ levels := by
  have items (items : List Json) :
      depthOfItems items ≤ levels ↔ ∀ item ∈ items, item.depth ≤ levels := by
    induction items with
    | nil => simp [depthOfItems]
    | cons item items ih => rw [depthOfItems, Nat.max_le, ih, List.forall_mem_cons]
  have members (members : List (String × Json)) :
      depthOfMembers members ≤ levels ↔ ∀ part ∈ members.map Prod.snd, part.depth ≤ levels := by
    induction members with
    | nil => simp [depthOfMembers]
    | cons member members ih =>
      rw [depthOfMembers, Nat.max_le, ih, List.map_cons, List.forall_mem_cons]
  cases value with
  | array list => simp only [depth, parts, Nat.add_le_add_iff_right, items]
  | object list => simp only [depth, parts, Nat.add_le_add_iff_right, members]
  | _ => simp [depth, parts]

namespace Wire

theorem mem_member? {name : String} {json : Option Json} {member : String × Json} :
    member ∈ member? name json ↔ member.1 = name ∧ json = some member.2 := by
  obtain ⟨other, value⟩ := member
  cases json <;> simp [member?, and_comm, eq_comm]

theorem exists_of_mapM_eq_some {α β : Type} {f : α → Option β} {xs : List α} {ys : List β}
    (h : xs.mapM f = some ys) : ∀ x ∈ xs, ∃ y, f x = some y := by
  induction xs generalizing ys with
  | nil => nofun
  | cons x xs ih =>
    rw [List.mapM_cons] at h
    simp only [Option.bind_eq_bind, Option.bind_eq_some_iff] at h
    obtain ⟨y, hy, others, hothers, -⟩ := h
    exact List.forall_mem_cons.2 ⟨⟨y, hy⟩, ih hothers⟩

theorem exists_of_list_eq_some {α : Type} {decode : Decoder α} {items : List Json}
    {levels : Nat} {xs : List α} (h : list decode levels (.array items) = some xs) :
    ∃ l, levels = l + 1 ∧ ∀ item ∈ items, ∃ x, decode l item = some x := by
  cases levels with
  | zero => cases h
  | succ levels => exact ⟨levels, rfl, exists_of_mapM_eq_some h⟩

end Wire

/-! ## Generations -/

namespace Node

mutual

/-- The number of nodes on the longest way down, the root included. -/
def generations : Node → Nat
  | ⟨_, _, _, none⟩ => 1
  | ⟨_, _, _, some kids⟩ => generationsOfAll kids + 1

def generationsOfAll : List Node → Nat
  | [] => 0
  | n :: ns => max (generations n) (generationsOfAll ns)

end

theorem generationsOfAll_le_iff (ns : List Node) (count : Nat) :
    generationsOfAll ns ≤ count ↔ ∀ n ∈ ns, n.generations ≤ count := by
  induction ns with
  | nil => simp [generationsOfAll]
  | cons n ns ih => rw [generationsOfAll, Nat.max_le, ih, List.forall_mem_cons]

theorem generations_pos (n : Node) : 0 < n.generations := by
  obtain ⟨_, _, _, _ | kids⟩ := n <;> simp [generations]

theorem generations_le_iff (n : Node) (count : Nat) :
    n.generations ≤ count + 1 ↔ ∀ c ∈ n.children, c.generations ≤ count := by
  obtain ⟨_, _, _, _ | kids⟩ := n
  · simp [generations, children]
  · simp [generations, children, generationsOfAll_le_iff]

end Node

/-! ## Nodes as values -/

theorem Payload.mem_parts_toJson {data : Payload} {part : Json} (h : part ∈ data.toJson.parts) :
    (∃ flag, part = .bool flag) ∨ (∃ text, part = .string text) ∨
      ∃ names : List String, part = .array (names.map .string) := by
  obtain ⟨⟨name, value⟩, found, rfl⟩ := List.mem_map.1 h
  simp only [List.mem_append, Wire.mem_member?, Option.map_eq_some_iff] at found
  rcases found with ((((⟨-, s, -, rfl⟩ | ⟨-, raised⟩) | ⟨-, s, -, rfl⟩) | ⟨-, k, -, rfl⟩) |
    ⟨-, k, -, rfl⟩) | ⟨-, names, -, rfl⟩
  · exact .inr (.inl ⟨s, rfl⟩)
  · split at raised
    · cases raised
      exact .inl ⟨true, rfl⟩
    · cases raised
  · exact .inr (.inl ⟨s, rfl⟩)
  · exact .inr (.inl ⟨k.text, rfl⟩)
  · exact .inr (.inl ⟨k.text, rfl⟩)
  · exact .inr (.inr ⟨names, rfl⟩)

theorem Node.mem_parts_toJson {n : Node} {part : Json} :
    part ∈ n.toJson.parts ↔ part = n.key.toJson ∨ part = n.tag.toJson ∨ part = n.data.toJson ∨
      ∃ kids, n.kids = some kids ∧ part = .array (kids.map toJson) := by
  rw [toJson_eq]
  cases n.kids <;> simp [Json.parts, Wire.member?]

namespace Json.NumberFree

theorem bool (flag : Bool) : NumberFree (.bool flag) := .mk nofun (by simp [parts])

theorem string (text : String) : NumberFree (.string text) := .mk nofun (by simp [parts])

theorem array {items : List Json} (h : ∀ item ∈ items, NumberFree item) :
    NumberFree (.array items) :=
  .mk nofun h

end Json.NumberFree

theorem Payload.toJson_numberFree (data : Payload) : data.toJson.NumberFree := by
  refine .mk nofun fun part h => ?_
  rcases mem_parts_toJson h with ⟨flag, rfl⟩ | ⟨text, rfl⟩ | ⟨names, rfl⟩
  · exact .bool flag
  · exact .string text
  · exact .array (List.forall_mem_map.2 fun name _ => .string name)

/-- The object of a payload opens a level, and its list of column names another one. -/
theorem Payload.depth_toJson_le (data : Payload) : data.toJson.depth ≤ 2 := by
  refine (Json.depth_le_iff _ 1).2 fun part h => ?_
  rcases mem_parts_toJson h with ⟨flag, rfl⟩ | ⟨text, rfl⟩ | ⟨names, rfl⟩
  · exact Nat.zero_le _
  · exact Nat.zero_le _
  · exact (Json.depth_le_iff _ 0).2 (List.forall_mem_map.2 fun name _ => Nat.le_refl _)

namespace Node

theorem toJson_numberFree (n : Node) : n.toJson.NumberFree := by
  induction n using children_induction with
  | step n ih =>
    refine .mk (by simp [toJson_eq]) fun part h => ?_
    rcases mem_parts_toJson.1 h with rfl | rfl | rfl | ⟨kids, hkids, rfl⟩
    · exact .string _
    · exact .string _
    · exact n.data.toJson_numberFree
    · exact .array (List.forall_mem_map.2 fun c hc => ih c (by simpa [children, hkids] using hc))

theorem depth_toJson_le (n : Node) : n.toJson.depth ≤ 2 * n.generations + 1 := by
  induction n using children_induction with
  | step n ih =>
    obtain ⟨below, counted⟩ := Nat.exists_eq_add_of_lt n.generations_pos
    have smaller := (generations_le_iff n below).1 (by omega)
    rw [show n.generations = below + 1 by omega]
    refine (Json.depth_le_iff _ (2 * below + 2)).2 fun part h => ?_
    rcases mem_parts_toJson.1 h with rfl | rfl | rfl | ⟨kids, hkids, rfl⟩
    · exact Nat.zero_le _
    · exact Nat.zero_le _
    · exact Nat.le_trans n.data.depth_toJson_le (by omega)
    · refine (Json.depth_le_iff _ (2 * below + 1)).2 (List.forall_mem_map.2 fun c hc => ?_)
      have hc : c ∈ n.children := by simpa [children, hkids] using hc
      have := ih c hc
      have := smaller c hc
      omega

/-! ## Nodes as texts -/

/-- Whoever reads a node has read its payload and its list of children. -/
theorem decode_parts {levels : Nat} {n m : Node} (h : decode (levels + 1) n.toJson = some m) :
    (∃ data, Payload.decode levels n.data.toJson = some data) ∧
      ∀ kids, n.kids = some kids →
        ∃ read, Wire.list decode levels (.array (kids.map toJson)) = some read := by
  simp only [decode, Option.bind_eq_bind, Option.bind_eq_some_iff] at h
  obtain ⟨members, accepted, -, -, -, -, data, hdata, read, hread, -⟩ := h
  obtain ⟨-, -, dataFound, kidsFound⟩ := n.lookup_toJson
  have same : members = n.toJson.members := by
    rw [toJson_eq_object] at accepted
    exact Wire.members?_eq_some accepted
  rw [same, Wire.optional, dataFound] at hdata
  refine ⟨⟨data, hdata⟩, fun kids given => ?_⟩
  rw [same, Wire.optional, kidsFound, given] at hread
  replace hread : Wire.nullable (decodeAll levels) (.array (kids.map toJson)) = some read := hread
  rw [Wire.nullable_of_ne_null _ (Json.array_ne_null _), decodeAll_eq_list,
    Option.map_eq_some_iff] at hread
  obtain ⟨read, hread, -⟩ := hread
  exact ⟨read, hread⟩

/-- A reader that gets through has had two levels for each generation. -/
theorem two_mul_generations_le {levels : Nat} {n m : Node}
    (h : decode levels n.toJson = some m) : 2 * n.generations ≤ levels := by
  induction n using children_induction generalizing levels m with
  | step n ih =>
    cases levels with
    | zero => cases h
    | succ levels =>
      obtain ⟨⟨data, hdata⟩, list⟩ := decode_parts h
      -- A node without children still needs a second level, for its payload.
      have payload : levels ≠ 0 := by
        rintro rfl
        cases hdata
      have below : ∀ c ∈ n.children, 2 * c.generations + 1 ≤ levels := by
        intro c hc
        obtain ⟨kids, given, hc⟩ : ∃ kids, n.kids = some kids ∧ c ∈ kids := by
          cases given : n.kids <;> simp_all [children]
        obtain ⟨read, hread⟩ := list kids given
        obtain ⟨l, rfl, each⟩ := Wire.exists_of_list_eq_some hread
        obtain ⟨x, hx⟩ := List.forall_mem_map.1 each c hc
        have := ih c (by simpa [children, given] using hc) hx
        omega
      have := (generations_le_iff n ((levels - 1) / 2)).2 fun c hc => by
        have := below c hc
        omega
      omega

/-- A tree comes back from its own text, indented or not, exactly if it has no more
than 63 generations; otherwise the text is refused. -/
theorem reads_own_texts (n : Node) :
    Wire.ofText? decode n.toJson.pretty = (if n.generations ≤ 63 then some n else none) ∧
    Wire.ofText? decode n.toJson.compact = (if n.generations ≤ 63 then some n else none) := by
  have value : decode Wire.maxLevels n.toJson = if n.generations ≤ 63 then some n else none := by
    split
    next shallow =>
      have := n.depth_toJson_le
      exact readsBack n Wire.maxLevels (by rw [Wire.maxLevels]; omega)
    next deep =>
      refine Option.eq_none_iff_forall_ne_some.2 fun m h => deep ?_
      have := two_mul_generations_le h
      rw [Wire.maxLevels] at this
      omega
  rw [Wire.ofText?, Wire.ofText?, Json.parse_pretty n.toJson_numberFree,
    Json.parse_compact n.toJson_numberFree, Option.bind_some, value]
  exact ⟨rfl, rfl⟩

end Node

end QueryTree
