import AdBlock.Json.Value

/-!
# Documents with the same values

Two documents have the same values if they differ only in the order of their fields, in fields
that a later one replaces, and in the form of numbers that are no integers.  A document and the
value it is read as have the same values (`same_toValue`).
-/

namespace Json

/-- The same values, where a relation says which literals are forms of one number. -/
inductive Same (R : Text → Text → Prop) : Json → Json → Prop where
  | null : Same R .null .null
  | bool (b : Bool) : Same R (.bool b) (.bool b)
  | int (n : ℤ) : Same R (.int n) (.int n)
  | float {literal literal' : Text} (h : R literal literal') :
      Same R (.float literal) (.float literal')
  | str (s : Text) : Same R (.str s) (.str s)
  | arr {items items' : List Json} (hlength : items.length = items'.length)
      (h : ∀ (i : ℕ) (v v' : Json), items[i]? = some v → items'[i]? = some v' → Same R v v') :
      Same R (.arr items) (.arr items')
  | obj {fields fields' : List (Text × Json)}
      (hkeys : ∀ key : Text, ((Json.obj fields).get key).isSome = ((Json.obj fields').get key).isSome)
      (h : ∀ (key : Text) (v v' : Json), (Json.obj fields).get key = some v →
        (Json.obj fields').get key = some v' → Same R v v') :
      Same R (.obj fields) (.obj fields')

/-- What two documents have for a key, if anything. -/
abbrev SameOption (R : Text → Text → Prop) : Option Json → Option Json → Prop :=
  Option.Rel (Same R)

/-- No key of an object in the document is there twice. -/
inductive Distinct : Json → Prop where
  | null : Distinct .null
  | bool (b : Bool) : Distinct (.bool b)
  | int (n : ℤ) : Distinct (.int n)
  | float (literal : Text) : Distinct (.float literal)
  | str (s : Text) : Distinct (.str s)
  | arr {items : List Json} (h : ∀ v ∈ items, Distinct v) : Distinct (.arr items)
  | obj {fields : List (Text × Json)} (hkeys : (fields.map Prod.fst).Nodup)
      (h : ∀ f ∈ fields, Distinct f.2) : Distinct (.obj fields)

/-! ### Distinct keys -/

theorem Distinct.nodup {fields : List (Text × Json)} (h : (Json.obj fields).Distinct) :
  (fields.map Prod.fst).Nodup
  := by
  cases h with
  | obj hkeys h => exact hkeys

theorem Scalar.distinct {v : Json} (h : Scalar v) :
  v.Distinct
  := by
  cases v with
  | null => exact .null
  | bool b => exact .bool b
  | int n => exact .int n
  | float literal => exact .float literal
  | str s => exact .str s
  | arr items => exact absurd h.2 (Nat.succ_ne_zero _)
  | obj fields => exact absurd h.2 (Nat.succ_ne_zero _)

/-- An object of scalars with distinct keys. -/
theorem distinct_of_scalars {fields : List (Text × Json)} (hkeys : (fields.map Prod.fst).Nodup)
    (h : ∀ f ∈ fields, Scalar f.2) :
  (Json.obj fields).Distinct
  := .obj hkeys fun f hf => (h f hf).distinct

theorem distinct_extend {base next : List (Text × Json)} (hbase : (Json.obj base).Distinct)
    (hnext : ∀ f ∈ next, f.2.Distinct) :
  (Json.obj (extend base next)).Distinct
  := by
  cases hbase with
  | obj hkeys hbase =>
    apply Distinct.obj (nodup_extend hkeys next)
    intro f hf
    rcases mem_extend hf with hf | hf
    · exact hbase f hf
    · exact hnext f hf

theorem distinct_toValue (v : Json) :
  v.toValue.Distinct
  := by
  induction v with
  | null => exact .null
  | bool b => exact .bool b
  | int n => exact .int n
  | float literal => exact .float literal
  | str s => exact .str s
  | arr items ih =>
    rw [toValue_arr]
    apply Distinct.arr
    intro w hw
    obtain ⟨u, hu, rfl⟩ := List.mem_map.mp hw
    exact ih u hu
  | obj fields ih =>
    rw [toValue_obj]
    have hempty : (Json.obj []).Distinct := .obj List.nodup_nil (List.forall_mem_nil _)
    apply distinct_extend hempty
    intro f hf
    obtain ⟨g, hg, rfl⟩ := List.mem_map.mp hf
    exact ih g hg

/-! ### The relation -/

section Same

variable {R : Text → Text → Prop}

theorem same_refl (hR : ∀ literal, R literal literal) (v : Json) :
  Same R v v
  := by
  induction v with
  | null => exact .null
  | bool b => exact .bool b
  | int n => exact .int n
  | float literal => exact .float (hR literal)
  | str s => exact .str s
  | arr items ih =>
    apply Same.arr rfl
    intro i v v' hv hv'
    cases hv.symm.trans hv'
    exact ih v (List.mem_of_getElem? hv)
  | obj fields ih =>
    apply Same.obj (fun _ => rfl)
    intro key v v' hv hv'
    cases hv.symm.trans hv'
    exact ih _ (mem_of_get hv)

theorem Same.trans (hR : ∀ a b c, R a b → R b c → R a c) {u v w : Json} (huv : Same R u v)
    (hvw : Same R v w) :
  Same R u w
  := by
  induction huv generalizing w with
  | null | bool b | int n | str s => exact hvw
  | float h =>
    cases hvw with
    | float h' => exact .float (hR _ _ _ h h')
  | @arr items items' hlength h ih =>
    cases hvw with
    | arr hlength' h' =>
      apply Same.arr (hlength.trans hlength')
      intro i a c ha hc
      -- the middle array has an item there as well
      have hlt : i < items'.length := by
        rw [← hlength]
        exact (List.getElem?_eq_some_iff.mp ha).1
      have hb : items'[i]? = some items'[i] := List.getElem?_eq_getElem hlt
      exact ih i a _ ha hb (h' i _ c hb hc)
  | @obj fields fields' hkeys h ih =>
    cases hvw with
    | obj hkeys' h' =>
      apply Same.obj (fun key => (hkeys key).trans (hkeys' key))
      intro key a c ha hc
      have hsome := hkeys key
      rw [ha] at hsome
      obtain ⟨b, hb⟩ := Option.isSome_iff_exists.mp hsome.symm
      exact ih key a b ha hb (h' key b c hb hc)

/-- A document has the same values as what it is read as. -/
theorem same_toValue (hR : ∀ literal, R literal literal) (v : Json) :
  Same R v.toValue v
  := by
  induction v with
  | null => exact .null
  | bool b => exact .bool b
  | int n => exact .int n
  | float literal => exact .float (hR literal)
  | str s => exact .str s
  | arr items ih =>
    rw [toValue_arr]
    apply Same.arr (List.length_map toValue)
    intro i v v' hv hv'
    rw [List.getElem?_map, hv'] at hv
    cases hv
    exact ih v' (List.mem_of_getElem? hv')
  | obj fields ih =>
    have hget := get_toValue (.obj fields)
    rw [toValue_obj] at hget ⊢
    apply Same.obj
    · intro key
      rw [hget, Option.isSome_map]
    · intro key v v' hv hv'
      rw [hget, hv'] at hv
      cases hv
      exact ih _ (mem_of_get hv')

/-! ### What documents have for a key -/

theorem SameOption.or {o o' p p' : Option Json} (h : SameOption R o o') (h' : SameOption R p p') :
  SameOption R (o.or p) (o'.or p')
  := by
  cases h with
  | some h => exact .some h
  | none => exact h'

theorem sameOption_refl (hR : ∀ literal, R literal literal) (o : Option Json) :
  SameOption R o o
  := by
  cases o with
  | none => exact .none
  | some v => exact .some (same_refl hR v)

theorem SameOption.trans (hR : ∀ a b c, R a b → R b c → R a c) {o p q : Option Json}
    (h : SameOption R o p) (h' : SameOption R p q) :
  SameOption R o q
  := by
  cases h with
  | none => exact h'
  | some h =>
    cases h' with
    | some h' => exact .some (h.trans hR h')

/-- Objects with the same values have the same for each key. -/
theorem Same.get {fields fields' : List (Text × Json)}
    (h : Same R (.obj fields) (.obj fields')) (key : Text) :
  SameOption R ((Json.obj fields).get key) ((Json.obj fields').get key)
  := by
  cases h with
  | obj hkeys h =>
    have hsome := hkeys key
    cases hget : (Json.obj fields).get key with
    | none =>
      rw [hget] at hsome
      rw [Option.isSome_eq_false_iff.mp hsome.symm |> Option.isNone_iff_eq_none.mp]
      exact .none
    | some v =>
      rw [hget] at hsome
      obtain ⟨v', hv'⟩ := Option.isSome_iff_exists.mp hsome.symm
      rw [hv']
      exact .some (h key v v' hget hv')

/-- An optional value is read by what it is. -/
theorem optionalOf_same {α : Type} {read : Json → Option α}
    (hread : ∀ v w, Same R v w → read v = read w) {o o' : Option Json} (h : SameOption R o o') :
  optionalOf read o = optionalOf read o'
  := by
  cases h with
  | none => rfl
  | some h =>
    have heq := hread _ _ h
    cases h with
    | null => rfl
    | _ => exact congrArg (Option.map some) heq

theorem optionalOf_or {α : Type} {read : Json → Option α} {o p : Option Json}
    (h : (optionalOf read o).isSome) (h' : (optionalOf read p).isSome) :
  (optionalOf read (o.or p)).isSome
  := by
  cases o with
  | none => exact h'
  | some v => exact h

theorem asBool_same {v w : Json} (h : Same R v w) :
  asBool v = asBool w
  := by
  cases h <;> rfl

theorem asStr_same {v w : Json} (h : Same R v w) :
  asStr v = asStr w
  := by
  cases h <;> rfl

end Same

end Json
