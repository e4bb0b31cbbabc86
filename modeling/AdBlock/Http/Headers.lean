import AdBlock.Rust.Text

/-!
# Maps of headers

What is used of a crate for the headers of messages, and what it is taken to do: a map is known by
the values of each name, in order.  The list of the headers is such a map (`HeaderCrate.listedLawful`).
-/

/-- Headers, by names in lower case. -/
structure HeaderCrate where
  Map : Type
  Value : Type
  /-- `HeaderMap::new`. -/
  new : Map
  /-- `HeaderMap::get_all`. -/
  getAll : Map → Text → List Value
  /-- `HeaderMap::append`. -/
  append : Map → Text → Value → Map
  /-- `HeaderMap::insert`. -/
  insert : Map → Text → Value → Map
  /-- `HeaderMap::remove`. -/
  remove : Map → Text → Map
  /-- `HeaderValue::from_str`. -/
  fromStr : Text → Option Value
  /-- `HeaderValue::from_static`. -/
  fromStatic : Text → Value
  /-- `HeaderValue::to_str`. -/
  toStr : Value → Option Text

namespace HeaderCrate

/-- `append` puts a value behind those of its name, `insert` in their place, and `remove` takes all
of them away. -/
structure Lawful (C : HeaderCrate) : Prop where
  getAll_append (headers : C.Map) (name : Text) (value : C.Value) (name' : Text) :
    C.getAll (C.append headers name value) name'
      = C.getAll headers name' ++ if name' = name then [value] else []
  getAll_insert (headers : C.Map) (name : Text) (value : C.Value) (name' : Text) :
    C.getAll (C.insert headers name value) name'
      = if name' = name then [value] else C.getAll headers name'
  getAll_remove (headers : C.Map) (name name' : Text) :
    C.getAll (C.remove headers name) name' = if name' = name then [] else C.getAll headers name'

/-- `HeaderMap::get`: the first value of a name. -/
def get (C : HeaderCrate) (headers : C.Map) (name : Text) : Option C.Value :=
  (C.getAll headers name).head?

namespace Lawful

variable {C : HeaderCrate} (hC : C.Lawful)

include hC

theorem append_ne (headers : C.Map) (name : Text) (value : C.Value) :
  C.append headers name value ≠ headers
  := by
  intro h
  have hvalues := hC.getAll_append headers name value name
  rw [h, if_pos rfl, List.self_eq_append_right] at hvalues
  cases hvalues

/-- Several names are removed one after the other. -/
theorem getAll_foldl_remove (names : List Text) (headers : C.Map) (name : Text) :
  C.getAll (names.foldl C.remove headers) name = if name ∈ names then [] else C.getAll headers name
  := by
  induction names generalizing headers with
  | nil => rfl
  | cons name' names ih =>
    rw [List.foldl_cons, ih, hC.getAll_remove]
    by_cases hmem : name ∈ names
    · rw [if_pos hmem, if_pos (List.mem_cons_of_mem _ hmem)]
    · rw [if_neg hmem]
      simp only [List.mem_cons, hmem, or_false]

end Lawful

/-! ### Headers in a list -/

/-- The values of a name. -/
def valuesOf (headers : List (Text × Text)) (name : Text) : List Text :=
  (headers.filter (·.1 = name)).map Prod.snd

theorem valuesOf_concat (headers : List (Text × Text)) (name value name' : Text) :
  valuesOf (headers ++ [(name, value)]) name'
    = valuesOf headers name' ++ if name' = name then [value] else []
  := by
  by_cases h : name' = name
  · simp [valuesOf, h]
  · simp [valuesOf, h, Ne.symm h]

theorem valuesOf_filter (headers : List (Text × Text)) (name name' : Text) :
  valuesOf (headers.filter (·.1 ≠ name)) name' = if name' = name then [] else valuesOf headers name'
  := by
  rw [valuesOf, List.filter_filter]
  by_cases h : name' = name
  · rw [if_pos h, List.map_eq_nil_iff, List.filter_eq_nil_iff]
    simp [h]
  · rw [if_neg h, valuesOf]
    congr 1
    apply List.filter_congr
    intro header _
    by_cases hname : header.1 = name'
    · simp [hname, h]
    · simp [hname]

theorem valuesOf_replace (headers : List (Text × Text)) (name value name' : Text) :
  valuesOf (headers.filter (·.1 ≠ name) ++ [(name, value)]) name'
    = if name' = name then [value] else valuesOf headers name'
  := by
  rw [valuesOf_concat, valuesOf_filter]
  by_cases h : name' = name
  · rw [if_pos h, if_pos h, if_pos h, List.nil_append]
  · rw [if_neg h, if_neg h, if_neg h, List.append_nil]

/-- The headers in the order in which they were added, with values of visible ASCII characters. -/
def listed : HeaderCrate where
  Map := List (Text × Text)
  Value := Text
  new := []
  getAll := valuesOf
  append headers name value := headers ++ [(name, value)]
  insert headers name value := headers.filter (·.1 ≠ name) ++ [(name, value)]
  remove headers name := headers.filter (·.1 ≠ name)
  fromStr s := if s.all fun c => 32 ≤ c.toNat ∧ c.toNat < 127 then some s else none
  fromStatic s := s
  toStr := some

theorem listedLawful :
  listed.Lawful
  where
  getAll_append := valuesOf_concat
  getAll_insert := valuesOf_replace
  getAll_remove := valuesOf_filter

end HeaderCrate
