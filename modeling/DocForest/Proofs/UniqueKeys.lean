import DocForest.Json.Equality
import DocForest.Json.Reader
import Mathlib.Data.List.Nodup

/-!
# Objects with different keys

Every field of an object has its own key.  The lists that stand for objects do not say so by themselves, but
**every object that is read from a document is of this kind**, in whatever it is nested, and such a value
equals itself.

## What is here

* `Json.keys` — the keys of a list of fields; `lookup_assign`, `mem_keys_assign`, `nodup_keys_assign` — a field
  that is replaced or added.
* `Json.UniqueKeys` — in no object inside a value two fields have one key.
* `same_self` — **such a value equals itself.**
* `uniqueKeys_of_parseDocument?` — **every value that is read is such a value.**
-/

set_option autoImplicit false

namespace DocForest
namespace Json

variable {key other : String} {value : Json} {fields : List (String × Json)}

/-! ## Fields -/

/-- The keys of a list of fields. -/
def keys (fields : List (String × Json)) : List String :=
  fields.map Prod.fst

theorem keys_cons (field : String × Json) (fields : List (String × Json)) :
    keys (field :: fields) = field.1 :: keys fields := rfl

theorem lookup_cons (key : String) (field : String × Json) (fields : List (String × Json)) :
    lookup key (field :: fields) = if field.1 = key then some field.2 else lookup key fields := by
  rw [lookup, List.find?_cons]
  by_cases h : field.1 = key
  · simp [h]
  · simp [h, lookup]

theorem mem_of_lookup (h : lookup key fields = some value) : (key, value) ∈ fields := by
  obtain ⟨field, hfield, rfl⟩ := Option.map_eq_some_iff.1 h
  obtain rfl : field.1 = key := by simpa using List.find?_some hfield
  exact List.mem_of_find?_eq_some hfield

theorem lookup_of_mem (hkeys : (keys fields).Nodup) (h : (key, value) ∈ fields) :
    lookup key fields = some value := by
  induction fields with
  | nil => exact absurd h List.not_mem_nil
  | cons field fields ih =>
    obtain ⟨hfield, hrest⟩ := List.nodup_cons.1 hkeys
    rw [lookup_cons]
    rcases List.mem_cons.1 h with rfl | h
    · exact if_pos rfl
    · rw [if_neg, ih hrest h]
      rintro rfl
      exact hfield (List.mem_map.2 ⟨_, h, rfl⟩)

theorem lookup_assign (key other : String) (value : Json) (fields : List (String × Json)) :
    lookup other (assign key value fields) = if key = other then some value else lookup other fields := by
  induction fields with
  | nil => simp [assign, lookup_cons]
  | cons field fields ih =>
    rw [assign]
    by_cases hfield : field.1 = key <;> by_cases hother : field.1 = other <;> by_cases hkey : key = other <;>
      simp_all [lookup_cons]

theorem assign_of_lookup (h : lookup key fields = some value) : assign key value fields = fields := by
  induction fields with
  | nil => cases h
  | cons field fields ih =>
    rw [lookup_cons] at h
    rw [assign]
    split at h
    · next hfield =>
      obtain rfl := Option.some.inj h
      rw [if_pos hfield, ← hfield]
    · next hfield => rw [if_neg hfield, ih h]

theorem keys_assign (key : String) (value : Json) (fields : List (String × Json)) :
    keys (assign key value fields) = if key ∈ keys fields then keys fields else keys fields ++ [key] := by
  induction fields with
  | nil => rfl
  | cons field fields ih =>
    rw [assign]
    split
    · next hfield => simp [keys, hfield]
    · next hfield =>
      have hne : key ≠ field.1 := fun h => hfield h.symm
      rw [keys, List.map_cons, ← keys, ih]
      by_cases hkey : key ∈ keys fields <;> simp_all [keys]

theorem mem_keys_assign : other ∈ keys (assign key value fields) ↔ other ∈ keys fields ∨ other = key := by
  rw [keys_assign]
  split
  · next h => exact ⟨.inl, fun hother => hother.elim id fun heq => heq ▸ h⟩
  · rw [List.mem_append, List.mem_singleton]

theorem nodup_keys_assign (h : (keys fields).Nodup) : (keys (assign key value fields)).Nodup := by
  rw [keys_assign]
  split
  · exact h
  · next hkey => exact List.concat_eq_append ▸ h.concat hkey

theorem mem_assign {field : String × Json} (h : field ∈ assign key value fields) :
    field = (key, value) ∨ field ∈ fields := by
  induction fields with
  | nil => exact .inl (List.mem_singleton.1 h)
  | cons first fields ih =>
    rw [assign] at h
    split at h
    · exact (List.mem_cons.1 h).imp_right (List.mem_cons_of_mem _)
    · rcases List.mem_cons.1 h with rfl | h
      · exact .inr List.mem_cons_self
      · exact (ih h).imp_right (List.mem_cons_of_mem _)

/-! ## Values -/

/-- In no object inside the value two fields have one key. -/
inductive UniqueKeys : Json → Prop
  | null : UniqueKeys .null
  | bool (value : Bool) : UniqueKeys (.bool value)
  | int (value : Int) : UniqueKeys (.int value)
  | float (value : Double) : UniqueKeys (.float value)
  | str (value : String) : UniqueKeys (.str value)
  | arr {items : List Json} (hitems : ∀ item ∈ items, UniqueKeys item) : UniqueKeys (.arr items)
  | obj {fields : List (String × Json)} (hkeys : (keys fields).Nodup)
      (hfields : ∀ field ∈ fields, UniqueKeys field.2) : UniqueKeys (.obj fields)

/-- What holds of a value if it holds of its fields, where it is an object, holds of every value with different
keys. -/
theorem UniqueKeys.by_fields {P : Json → Prop} (hvalue : UniqueKeys value)
    (h : ∀ value, UniqueKeys value → (∀ fields, value = .obj fields → ∀ field ∈ fields, P field.2) → P value) :
    P value := by
  induction hvalue with
  | null => exact h _ .null nofun
  | bool b => exact h _ (.bool b) nofun
  | int n => exact h _ (.int n) nofun
  | float x => exact h _ (.float x) nofun
  | str text => exact h _ (.str text) nofun
  | arr hitems => exact h _ (.arr hitems) nofun
  | obj hkeys hfields ih => exact h _ (.obj hkeys hfields) fun fields heq => Json.obj.inj heq ▸ ih

/-! ## Equality -/

theorem sameNumber_self (n : Int × Nat) : sameNumber n n = true := by
  simp [sameNumber]

theorem sameItems_self {items : List Json} (h : ∀ item ∈ items, same item item = true) :
    sameItems items items = true := by
  induction items with
  | nil => rfl
  | cons item items ih =>
    obtain ⟨hitem, hrest⟩ := List.forall_mem_cons.1 h
    rw [sameItems, hitem, ih hrest]
    rfl

theorem sameFields_of_lookup {part : List (String × Json)}
    (h : ∀ field ∈ part, lookup field.1 fields = some field.2 ∧ same field.2 field.2 = true) :
    sameFields part fields = true := by
  induction part with
  | nil => rfl
  | cons field part ih =>
    obtain ⟨⟨hlookup, hsame⟩, hrest⟩ := List.forall_mem_cons.1 h
    rw [sameFields, hlookup, ih hrest, Bool.and_true]
    exact hsame

/-- **A value with different keys equals itself.** -/
theorem same_self (h : UniqueKeys value) : same value value = true := by
  induction h with
  | null => rfl
  | bool value => exact sameNumber_self _
  | int value => exact sameNumber_self _
  | float value =>
    rw [same, number?]
    cases value.ratio? with
    | none => exact sameNumber_self _
    | some ratio => exact sameNumber_self ratio
  | str value => exact decide_eq_true (Eq.refl value)
  | arr _ ih => exact sameItems_self ih
  | obj hkeys _ ih =>
    have hfields := sameFields_of_lookup fun field hfield => ⟨lookup_of_mem hkeys hfield, ih field hfield⟩
    rw [same, hfields, Bool.and_true, decide_eq_true_eq]

/-! ## Reading -/

theorem UniqueKeys.assign (hkeys : (keys fields).Nodup) (hfields : ∀ field ∈ fields, UniqueKeys field.2)
    (hvalue : UniqueKeys value) : UniqueKeys (.obj (assign key value fields)) := by
  refine .obj (nodup_keys_assign hkeys) fun field hfield => ?_
  rcases mem_assign hfield with rfl | hfield
  · exact hvalue
  · exact hfields field hfield

theorem uniqueKeys_ofFields (h : ∀ field ∈ fields, UniqueKeys field.2) : UniqueKeys (ofFields fields) := by
  have hstart : UniqueKeys (.obj []) := .obj List.nodup_nil (List.forall_mem_nil _)
  rw [ofFields]
  generalize [] = known at hstart ⊢
  induction fields generalizing known with
  | nil => exact hstart
  | cons field fields ih =>
    obtain ⟨hfield, hrest⟩ := List.forall_mem_cons.1 h
    cases hstart with
    | obj hkeys hknown => exact ih hrest _ (.assign hkeys hknown hfield)

theorem uniqueKeys_of_readNumber? {s rest : List Char} (h : readNumber? s = some (value, rest)) :
    UniqueKeys value := by
  unfold readNumber? at h
  -- with a sign and without one
  split at h
  all_goals
    dsimp only at h
    split at h
    · cases h
    · split at h
      · obtain ⟨rfl, -⟩ := Prod.mk.inj (Option.some.inj h)
        exact .int _
      · obtain ⟨rfl, -⟩ := Prod.mk.inj (Option.some.inj h)
        exact .float _

theorem uniqueKeys_of_read (steps : Nat) :
    (∀ {s value rest}, readValue? steps s = some (value, rest) → UniqueKeys value) ∧
      (∀ {s items rest}, readItems? steps s = some (items, rest) → ∀ item ∈ items, UniqueKeys item) ∧
      ∀ {s fields rest}, readFields? steps s = some (fields, rest) → ∀ field ∈ fields, UniqueKeys field.2 := by
  induction steps with
  | zero => exact ⟨nofun, nofun, nofun⟩
  | succ steps ih =>
    obtain ⟨hvalue, hitems, hfields⟩ := ih
    refine ⟨fun {s value rest} h => ?_, fun {s items rest} h => ?_, fun {s fields rest} h => ?_⟩
    · rw [readValue?] at h
      split at h
      · obtain ⟨rfl, -⟩ := Prod.mk.inj (Option.some.inj h)
        exact .null
      · obtain ⟨rfl, -⟩ := Prod.mk.inj (Option.some.inj h)
        exact .bool true
      · obtain ⟨rfl, -⟩ := Prod.mk.inj (Option.some.inj h)
        exact .bool false
      · split at h
        · obtain ⟨rfl, -⟩ := Prod.mk.inj (Option.some.inj h)
          exact .arr (List.forall_mem_nil _)
        · obtain ⟨⟨items, after⟩, hread, hpair⟩ := Option.map_eq_some_iff.1 h
          obtain ⟨rfl, -⟩ := Prod.mk.inj hpair
          exact .arr (hitems hread)
      · split at h
        · obtain ⟨rfl, -⟩ := Prod.mk.inj (Option.some.inj h)
          exact .obj List.nodup_nil (List.forall_mem_nil _)
        · obtain ⟨⟨fields, after⟩, hread, hpair⟩ := Option.map_eq_some_iff.1 h
          obtain ⟨rfl, -⟩ := Prod.mk.inj hpair
          exact uniqueKeys_ofFields (hfields hread)
      · obtain ⟨⟨text, after⟩, -, hpair⟩ := Option.map_eq_some_iff.1 h
        obtain ⟨rfl, -⟩ := Prod.mk.inj hpair
        exact .str text
      · exact uniqueKeys_of_readNumber? h
    · rw [readItems?] at h
      obtain ⟨⟨item, after⟩, hitem, h⟩ := Option.bind_eq_some_iff.1 h
      dsimp only at h
      split at h
      · obtain ⟨⟨more, behind⟩, hmore, h⟩ := Option.bind_eq_some_iff.1 h
        obtain ⟨rfl, -⟩ := Prod.mk.inj (Option.some.inj h)
        exact List.forall_mem_cons.2 ⟨hvalue hitem, hitems hmore⟩
      · obtain ⟨rfl, -⟩ := Prod.mk.inj (Option.some.inj h)
        exact List.forall_mem_singleton.2 (hvalue hitem)
      · cases h
    · rw [readFields?] at h
      split at h
      · obtain ⟨⟨key, behindKey⟩, -, h⟩ := Option.bind_eq_some_iff.1 h
        dsimp only at h
        split at h
        · obtain ⟨⟨value, after⟩, hread, h⟩ := Option.bind_eq_some_iff.1 h
          dsimp only at h
          split at h
          · obtain ⟨⟨more, behind⟩, hmore, h⟩ := Option.bind_eq_some_iff.1 h
            obtain ⟨rfl, -⟩ := Prod.mk.inj (Option.some.inj h)
            exact List.forall_mem_cons.2 ⟨hvalue hread, hfields hmore⟩
          · obtain ⟨rfl, -⟩ := Prod.mk.inj (Option.some.inj h)
            exact List.forall_mem_singleton.2 (hvalue hread)
          · cases h
        · cases h
      · cases h

/-- **In every document that is read, the objects have different keys.** -/
theorem uniqueKeys_of_parseDocument? {text : String} (h : parseDocument? text = some value) : UniqueKeys value := by
  rw [parseDocument?] at h
  split at h
  · obtain rfl := Option.some.inj h
    exact .null
  · simp only [parse?] at h
    split at h
    · next hread =>
      split at h
      · obtain rfl := Option.some.inj h
        exact (uniqueKeys_of_read _).1 hread
      · cases h
    · cases h

end Json
end DocForest
