import DocForest.Config.Layers
import DocForest.Outcome
import DocForest.Proofs.UniqueKeys

/-!
# Layers of a configuration

Laying one object over another goes field by field and down into objects that both sides have.  **A layer that
is laid over once more changes nothing**, and an object over itself neither; at every depth there are the keys
of both sides, and a list of patterns keeps those that it has and gets those that are new.

## What is here

* `Additions` — what is new among further items, said item by item; `exists_additions` — a list is extended by
  what is new, `extendUnique_extendUnique` — and once more by nothing.
* `overlayValue_cases` — what becomes of a field: an object of two, a list with additions, or the upper value.
* `lookup_overlay_of_notMem`, `lookup_overlay_of_mem`, `mem_keys_overlay` — the fields of the result.
* `overlay_self`, `overlay_overlay` — **an object over itself, and a layer once more**;
  `UniqueKeys.overlay` — the result has different keys.
* `at?`, `overlay_at` — at every depth at which both sides are objects the result is one laid over the other.
* `overlay_layers` — **all of this together.**
-/

set_option autoImplicit false

namespace DocForest
namespace Json

variable {key : String} {value laid : Json} {below : Option Json} {lower upper merged : List (String × Json)}
  {known items added : List Json}

/-! ## Additions to a list -/

/-- What is new among further items, in their order: an item is added unless an earlier one, which may itself
have been added, equals it. -/
inductive Additions : List Json → List Json → List Json → Prop
  | nil (known : List Json) : Additions known [] []
  | known {known items added : List Json} {item : Json} (hitem : ∃ earlier ∈ known, same earlier item = true)
      (hrest : Additions known items added) : Additions known (item :: items) added
  | new {known items added : List Json} {item : Json} (hitem : ∀ earlier ∈ known, same earlier item = false)
      (hrest : Additions (known ++ [item]) items added) : Additions known (item :: items) (item :: added)

theorem extendUnique_cons_of_known {item : Json} (hitem : ∃ earlier ∈ known, same earlier item = true)
    (items : List Json) : extendUnique known (item :: items) = extendUnique known items := by
  rw [extendUnique, List.foldl_cons, if_pos (List.any_eq_true.2 hitem), extendUnique]

theorem extendUnique_cons_of_new {item : Json} (hitem : ∀ earlier ∈ known, same earlier item = false)
    (items : List Json) : extendUnique known (item :: items) = extendUnique (known ++ [item]) items := by
  have hnot : ¬(known.any (same · item)) = true := fun h => by
    obtain ⟨earlier, hearlier, hsame⟩ := List.any_eq_true.1 h
    exact Bool.false_ne_true ((hitem earlier hearlier).symm.trans hsame)
  rw [extendUnique, List.foldl_cons, if_neg hnot, extendUnique]

/-- **A list is extended by what is new.** -/
theorem exists_additions (known items : List Json) :
    ∃ added, extendUnique known items = known ++ added ∧ Additions known items added := by
  induction items generalizing known with
  | nil => exact ⟨[], (List.append_nil known).symm, .nil known⟩
  | cons item items ih =>
    by_cases hitem : ∃ earlier ∈ known, same earlier item = true
    · obtain ⟨added, hadded, hrest⟩ := ih known
      exact ⟨added, (extendUnique_cons_of_known hitem items).trans hadded, .known hitem hrest⟩
    · have hnew : ∀ earlier ∈ known, same earlier item = false := fun earlier hearlier =>
        Bool.eq_false_iff.2 fun hsame => hitem ⟨earlier, hearlier, hsame⟩
      obtain ⟨added, hadded, hrest⟩ := ih (known ++ [item])
      refine ⟨item :: added, (extendUnique_cons_of_new hnew items).trans ?_, .new hnew hrest⟩
      rw [hadded, List.append_assoc, List.singleton_append]

theorem Additions.subset (h : Additions known items added) : added ⊆ items := by
  induction h with
  | nil => exact List.Subset.refl _
  | known _ _ ih => exact List.subset_cons_of_subset _ ih
  | new _ _ ih => exact List.cons_subset_cons _ ih

theorem Additions.covers (h : Additions known items added) (hself : ∀ item ∈ items, same item item = true) :
    ∀ item ∈ items, ∃ earlier ∈ known ++ added, same earlier item = true := by
  induction h with
  | nil => exact List.forall_mem_nil _
  | known hitem _ ih =>
    obtain ⟨-, hself⟩ := List.forall_mem_cons.1 hself
    obtain ⟨earlier, hearlier, hsame⟩ := hitem
    exact List.forall_mem_cons.2 ⟨⟨earlier, List.mem_append_left _ hearlier, hsame⟩, ih hself⟩
  | new _ _ ih =>
    obtain ⟨hitem, hself⟩ := List.forall_mem_cons.1 hself
    refine List.forall_mem_cons.2 ⟨⟨_, List.mem_append_right _ List.mem_cons_self, hitem⟩, ?_⟩
    simpa only [List.append_assoc, List.singleton_append] using ih hself

theorem extendUnique_of_known (h : ∀ item ∈ items, ∃ earlier ∈ known, same earlier item = true) :
    extendUnique known items = known := by
  induction items with
  | nil => rfl
  | cons item items ih =>
    obtain ⟨hitem, hrest⟩ := List.forall_mem_cons.1 h
    rw [extendUnique_cons_of_known hitem, ih hrest]

theorem extendUnique_self (h : ∀ item ∈ items, same item item = true) : extendUnique items items = items :=
  extendUnique_of_known fun item hitem => ⟨item, hitem, h item hitem⟩

theorem extendUnique_extendUnique (h : ∀ item ∈ items, same item item = true) (known : List Json) :
    extendUnique (extendUnique known items) items = extendUnique known items := by
  obtain ⟨added, hadded, hadditions⟩ := exists_additions known items
  rw [hadded]
  exact extendUnique_of_known (hadditions.covers h)

/-! ## Values as lists -/

theorem readList_arr (items : List Json) : readList (.arr items) = .ok items := by
  cases items <;> rfl

theorem UniqueKeys.of_readList (h : UniqueKeys value) (hread : readList value = .ok items) :
    ∀ item ∈ items, UniqueKeys item := by
  have hparts : value.givenElements? = some items := by
    rw [readList] at hread
    split at hread
    · next heq => rw [heq, Except.ok.inj hread]
    · cases hread
  rw [givenElements?] at hparts
  split at hparts
  · cases h with
    | null | bool | int | float => cases hparts
    | str text =>
      obtain rfl := Option.some.inj hparts
      exact List.forall_mem_map.2 fun c _ => .str _
    | arr hitems =>
      obtain rfl := Option.some.inj hparts
      exact hitems
    | obj =>
      obtain rfl := Option.some.inj hparts
      exact List.forall_mem_map.2 fun field _ => .str _
  · obtain rfl := Option.some.inj hparts
    exact List.forall_mem_nil _

/-! ## One field -/

theorem overlayValue_obj (key : String) (known fields : List (String × Json)) :
    overlayValue key (some (.obj known)) (.obj fields) =
      overlay known fields >>= fun both => .ok (.obj both) := by
  rw [overlayValue]
  rfl

theorem overlayValue_arr (key : String) (known : List Json) (value : Json) :
    overlayValue key (some (.arr known)) value =
      if isAdditive key then readList value >>= fun items => .ok (.arr (extendUnique known items))
      else .ok value := by
  cases value <;> simp only [overlayValue] <;> rfl

theorem overlayValue_other (harr : ∀ known, below ≠ some (.arr known))
    (hobj : ∀ known fields, below = some (.obj known) → value ≠ .obj fields) :
    overlayValue key below value = .ok value := by
  cases value with
  | obj fields =>
    rcases below with - | below
    · rfl
    · cases below with
      | arr known => exact absurd rfl (harr known)
      | obj known => exact absurd rfl (hobj known fields rfl)
      | _ => rfl
  | _ => simp only [overlayValue]; rfl

/-- What becomes of a field: it is an object of two, a list with additions, or the upper value. -/
theorem overlayValue_cases (h : overlayValue key below value = .ok laid) :
    (∃ known fields both, below = some (.obj known) ∧ value = .obj fields ∧
      overlay known fields = .ok both ∧ laid = .obj both) ∨
    (∃ known items, below = some (.arr known) ∧ isAdditive key = true ∧ readList value = .ok items ∧
      laid = .arr (extendUnique known items)) ∨
    laid = value := by
  by_cases harr : ∃ known, below = some (.arr known)
  · obtain ⟨known, rfl⟩ := harr
    rw [overlayValue_arr] at h
    split at h
    · next hkey =>
      obtain ⟨items, hitems, hlaid⟩ := Outcome.bind_eq_ok.1 h
      exact .inr (.inl ⟨known, items, rfl, hkey, hitems, (Except.ok.inj hlaid).symm⟩)
    · exact .inr (.inr (Except.ok.inj h).symm)
  · by_cases hobj : ∃ known fields, below = some (.obj known) ∧ value = .obj fields
    · obtain ⟨known, fields, rfl, rfl⟩ := hobj
      rw [overlayValue_obj] at h
      obtain ⟨both, hboth, hlaid⟩ := Outcome.bind_eq_ok.1 h
      exact .inl ⟨known, fields, both, rfl, rfl, hboth, (Except.ok.inj hlaid).symm⟩
    · refine .inr (.inr (Except.ok.inj (h.symm.trans (overlayValue_other ?_ ?_))))
      · exact fun known hknown => harr ⟨known, hknown⟩
      · exact fun known fields hknown hfields => hobj ⟨known, fields, hknown, hfields⟩

/-! ## The fields of the result -/

theorem overlay_cons_eq_ok : overlay lower ((key, value) :: upper) = .ok merged ↔
    ∃ field, overlayValue key (lookup key lower) value = .ok field ∧
      overlay (assign key field lower) upper = .ok merged := by
  rw [overlay]
  exact Outcome.bind_eq_ok

theorem lookup_overlay_of_notMem (h : overlay lower upper = .ok merged) (hkey : key ∉ keys upper) :
    lookup key merged = lookup key lower := by
  induction upper generalizing lower with
  | nil => rw [Except.ok.inj h]
  | cons field upper ih =>
    obtain ⟨hne, hkey⟩ := not_or.1 (mt List.mem_cons.2 hkey)
    obtain ⟨laid, -, hrest⟩ := overlay_cons_eq_ok.1 h
    rw [ih hrest hkey, lookup_assign, if_neg (Ne.symm hne)]

/-- A field of the upper layer is laid over what the lower layer has under its key: the steps before it are
about other keys. -/
theorem lookup_overlay_of_mem (hkeys : (keys upper).Nodup) (h : overlay lower upper = .ok merged)
    (hfield : (key, value) ∈ upper) :
    ∃ laid, overlayValue key (lookup key lower) value = .ok laid ∧ lookup key merged = some laid := by
  induction upper generalizing lower with
  | nil => exact absurd hfield List.not_mem_nil
  | cons field upper ih =>
    obtain ⟨hfirst, hkeys⟩ := List.nodup_cons.1 hkeys
    obtain ⟨laid, hlaid, hrest⟩ := overlay_cons_eq_ok.1 h
    rcases List.mem_cons.1 hfield with rfl | hfield
    · refine ⟨laid, hlaid, ?_⟩
      rw [lookup_overlay_of_notMem hrest hfirst, lookup_assign, if_pos rfl]
    · have hne : field.1 ≠ key := fun heq => hfirst (heq ▸ List.mem_map_of_mem hfield)
      have hlookup := ih hkeys hrest hfield
      rwa [lookup_assign, if_neg hne] at hlookup

theorem mem_keys_overlay (h : overlay lower upper = .ok merged) :
    key ∈ keys merged ↔ key ∈ keys lower ∨ key ∈ keys upper := by
  induction upper generalizing lower with
  | nil =>
    rw [← Except.ok.inj h]
    exact ⟨.inl, fun hkey => hkey.elim id (absurd · List.not_mem_nil)⟩
  | cons field upper ih =>
    obtain ⟨laid, -, hrest⟩ := overlay_cons_eq_ok.1 h
    rw [ih hrest, mem_keys_assign, or_assoc, keys_cons, List.mem_cons]

theorem overlay_eq_self (h : ∀ field ∈ upper, ∃ below, lookup field.1 lower = some below ∧
    overlayValue field.1 (some below) field.2 = .ok below) : overlay lower upper = .ok lower := by
  induction upper with
  | nil => rfl
  | cons field upper ih =>
    obtain ⟨⟨below, hbelow, hlaid⟩, hrest⟩ := List.forall_mem_cons.1 h
    refine overlay_cons_eq_ok.2 ⟨below, hbelow ▸ hlaid, ?_⟩
    rw [assign_of_lookup hbelow]
    exact ih hrest

/-! ## A value over itself -/

/-- That an object may be laid over itself is a matter of its fields. -/
theorem overlay_self_of_fields (hkeys : (keys lower).Nodup)
    (hfields : ∀ field ∈ lower, overlayValue field.1 (some field.2) field.2 = .ok field.2) :
    overlay lower lower = .ok lower :=
  overlay_eq_self fun field hfield => ⟨field.2, lookup_of_mem hkeys hfield, hfields field hfield⟩

theorem overlayValue_self (hvalue : UniqueKeys value) (key : String) :
    overlayValue key (some value) value = .ok value := by
  induction hvalue generalizing key with
  | null | bool | int | float | str => rfl
  | arr hitems =>
    rw [overlayValue_arr, readList_arr, Outcome.ok_bind,
      extendUnique_self fun item hitem => same_self (hitems item hitem), ite_self]
  | obj hkeys _ ih =>
    rw [overlayValue_obj, overlay_self_of_fields hkeys fun field hfield => ih field hfield field.1, Outcome.ok_bind]

/-- **An object over itself is that object.** -/
theorem overlay_self (h : UniqueKeys (.obj lower)) : overlay lower lower = .ok lower := by
  cases h with
  | obj hkeys hfields =>
    exact overlay_self_of_fields hkeys fun field hfield => overlayValue_self (hfields field hfield) field.1

/-! ## A layer once more -/

/-- That a layer may be laid over its result is a matter of its fields. -/
theorem overlay_overlay_of_fields (hkeys : (keys upper).Nodup)
    (hfields : ∀ field ∈ upper, ∀ {below laid}, overlayValue field.1 below field.2 = .ok laid →
      overlayValue field.1 (some laid) field.2 = .ok laid)
    (h : overlay lower upper = .ok merged) : overlay merged upper = .ok merged :=
  overlay_eq_self fun field hfield => by
    obtain ⟨laid, hlaid, hlookup⟩ := lookup_overlay_of_mem hkeys h hfield
    exact ⟨laid, hlookup, hfields field hfield hlaid⟩

theorem overlayValue_overlayValue (hvalue : UniqueKeys value) :
    ∀ {key below laid}, overlayValue key below value = .ok laid → overlayValue key (some laid) value = .ok laid := by
  refine hvalue.by_fields (P := fun value => ∀ {key below laid}, overlayValue key below value = .ok laid →
    overlayValue key (some laid) value = .ok laid) fun value hvalue ih key below laid h => ?_
  rcases overlayValue_cases h with ⟨known, fields, both, -, rfl, hboth, rfl⟩ | ⟨known, items, -, hkey, hitems, rfl⟩ |
    rfl
  -- an object gives what its fields give, a list has all the further items by now, and a value stays itself
  · cases hvalue with
    | obj hkeys _ =>
      rw [overlayValue_obj, overlay_overlay_of_fields hkeys (fun field hfield => ih fields rfl field hfield) hboth,
        Outcome.ok_bind]
  · have hself : ∀ item ∈ items, same item item = true := fun item hitem =>
      same_self (hvalue.of_readList hitems item hitem)
    rw [overlayValue_arr, if_pos hkey, hitems, Outcome.ok_bind, extendUnique_extendUnique hself]
  · exact overlayValue_self hvalue key

/-- **A layer that is laid over once more changes nothing.** -/
theorem overlay_overlay (hupper : UniqueKeys (.obj upper)) (h : overlay lower upper = .ok merged) :
    overlay merged upper = .ok merged := by
  cases hupper with
  | obj hkeys hfields =>
    exact overlay_overlay_of_fields hkeys (fun field hfield => overlayValue_overlayValue (hfields field hfield)) h

/-! ## Different keys in the result -/

theorem UniqueKeys.extendUnique (hknown : UniqueKeys (.arr known)) (hitems : ∀ item ∈ items, UniqueKeys item) :
    UniqueKeys (.arr (extendUnique known items)) := by
  cases hknown with
  | arr hknown =>
    obtain ⟨added, hadded, hadditions⟩ := exists_additions known items
    rw [hadded]
    exact .arr (List.forall_mem_append.2 ⟨hknown, fun item hitem => hitems item (hadditions.subset hitem)⟩)

theorem UniqueKeys.overlay_of_fields
    (hfields : ∀ field ∈ upper, ∀ {below laid}, (∀ v ∈ below, UniqueKeys v) →
      overlayValue field.1 below field.2 = .ok laid → UniqueKeys laid)
    (hlower : UniqueKeys (.obj lower)) (h : overlay lower upper = .ok merged) : UniqueKeys (.obj merged) := by
  induction upper generalizing lower with
  | nil => exact Except.ok.inj h ▸ hlower
  | cons field upper ih =>
    obtain ⟨hfield, hrest⟩ := List.forall_mem_cons.1 hfields
    obtain ⟨laid, hlaid, h⟩ := overlay_cons_eq_ok.1 h
    refine ih hrest ?_ h
    cases hlower with
    | obj hkeys hlower =>
      exact .assign hkeys hlower (hfield (fun v hv => hlower _ (mem_of_lookup hv)) hlaid)

theorem UniqueKeys.overlayValue (hvalue : UniqueKeys value) :
    ∀ {key below laid}, (∀ v ∈ below, UniqueKeys v) → overlayValue key below value = .ok laid →
      UniqueKeys laid := by
  refine hvalue.by_fields (P := fun value => ∀ {key below laid}, (∀ v ∈ below, UniqueKeys v) →
    Json.overlayValue key below value = .ok laid → UniqueKeys laid) fun value hvalue ih key below laid hbelow h => ?_
  rcases overlayValue_cases h with ⟨known, fields, both, rfl, rfl, hboth, rfl⟩ | ⟨known, items, rfl, -, hitems, rfl⟩ |
    rfl
  · exact .overlay_of_fields (fun field hfield => ih fields rfl field hfield) (hbelow _ rfl) hboth
  · exact .extendUnique (hbelow _ rfl) (hvalue.of_readList hitems)
  · exact hvalue

/-- **The result has different keys, as both layers have.** -/
theorem UniqueKeys.overlay (hlower : UniqueKeys (.obj lower)) (hupper : UniqueKeys (.obj upper))
    (h : overlay lower upper = .ok merged) : UniqueKeys (.obj merged) := by
  cases hupper with
  | obj _ hfields =>
    exact .overlay_of_fields (fun field hfield => (hfields field hfield).overlayValue) hlower h

/-! ## Every depth -/

/-- The value that a path of keys leads to. -/
def at? : List String → Json → Option Json
  | [], value => some value
  | key :: path, value =>
    match value with
    | .obj fields => (lookup key fields).bind (at? path)
    | _ => none

theorem at?_cons (key : String) (path : List String) (fields : List (String × Json)) :
    at? (key :: path) (.obj fields) = (lookup key fields).bind (at? path) := rfl

theorem exists_fields_of_at? {path : List String} {fields : List (String × Json)}
    (h : at? path value = some (.obj fields)) : ∃ outer, value = .obj outer := by
  cases path with
  | nil => exact ⟨fields, Option.some.inj h⟩
  | cons key path =>
    cases value with
    | obj outer => exact ⟨outer, rfl⟩
    | _ => cases h

theorem UniqueKeys.of_at? {path : List String} (hvalue : UniqueKeys value) (h : at? path value = some laid) :
    UniqueKeys laid := by
  induction path generalizing value with
  | nil => exact Option.some.inj h ▸ hvalue
  | cons key path ih =>
    cases hvalue with
    | obj _ hfields =>
      obtain ⟨inner, hinner, h⟩ := Option.bind_eq_some_iff.1 h
      exact ih (hfields _ (mem_of_lookup hinner)) h
    | _ => cases h

/-- **Where both sides are objects, the result is one laid over the other.** -/
theorem overlay_at (hupper : UniqueKeys (.obj upper)) (h : overlay lower upper = .ok merged) {path : List String}
    {known fields : List (String × Json)} (hknown : at? path (.obj lower) = some (.obj known))
    (hfields : at? path (.obj upper) = some (.obj fields)) :
    ∃ both, at? path (.obj merged) = some (.obj both) ∧ overlay known fields = .ok both := by
  induction path generalizing lower upper merged with
  | nil =>
    obtain rfl := Json.obj.inj (Option.some.inj hknown)
    obtain rfl := Json.obj.inj (Option.some.inj hfields)
    exact ⟨merged, rfl, h⟩
  | cons key path ih =>
    obtain ⟨inner, hinner, hknown⟩ := Option.bind_eq_some_iff.1 hknown
    obtain ⟨further, hfurther, hfields⟩ := Option.bind_eq_some_iff.1 hfields
    obtain ⟨inner, rfl⟩ := exists_fields_of_at? hknown
    obtain ⟨further, rfl⟩ := exists_fields_of_at? hfields
    cases hupper with
    | obj hkeys hupper =>
      have hmem := mem_of_lookup hfurther
      obtain ⟨laid, hlaid, hlookup⟩ := lookup_overlay_of_mem hkeys h hmem
      rw [hinner, overlayValue_obj] at hlaid
      obtain ⟨both, hboth, hlaid⟩ := Outcome.bind_eq_ok.1 hlaid
      obtain rfl := Except.ok.inj hlaid
      rw [at?_cons, hlookup, Option.bind_some]
      exact ih (hupper _ hmem) hboth hknown hfields

/-! ## All together -/

/-- Two lists of patterns: the lower one is kept and gets what is new. -/
theorem lookup_overlay_patterns (hkeys : (keys upper).Nodup) (h : overlay lower upper = .ok merged)
    (hkey : isAdditive key = true) (hknown : lookup key lower = some (.arr known))
    (hitems : lookup key upper = some (.arr items)) :
    ∃ added, lookup key merged = some (.arr (known ++ added)) ∧ Additions known items added := by
  obtain ⟨laid, hlaid, hlookup⟩ := lookup_overlay_of_mem hkeys h (mem_of_lookup hitems)
  rw [hknown, overlayValue_arr, if_pos hkey, readList_arr, Outcome.ok_bind] at hlaid
  obtain ⟨added, hadded, hadditions⟩ := exists_additions known items
  refine ⟨added, ?_, hadditions⟩
  rw [hlookup, ← Except.ok.inj hlaid, hadded]

/-- **Laying a configuration over another one.**  A layer that is laid over once more changes nothing, nor does
an object over itself.  The result is an object with different keys; wherever both layers have objects it has
one with the keys of both, and wherever both have a list of patterns it has the lower one and then, item by
item, what equals nothing before it. -/
theorem overlay_layers (hlower : UniqueKeys (.obj lower)) (hupper : UniqueKeys (.obj upper))
    (h : overlay lower upper = .ok merged) :
    overlay merged upper = .ok merged ∧ overlay lower lower = .ok lower ∧ UniqueKeys (.obj merged) ∧
      ∀ path known fields, at? path (.obj lower) = some (.obj known) → at? path (.obj upper) = some (.obj fields) →
        ∃ both, at? path (.obj merged) = some (.obj both) ∧
          (∀ key, key ∈ keys both ↔ key ∈ keys known ∨ key ∈ keys fields) ∧
          ∀ items further, lookup "abstract_glob" known = some (.arr items) →
            lookup "abstract_glob" fields = some (.arr further) →
            ∃ added, lookup "abstract_glob" both = some (.arr (items ++ added)) ∧ Additions items further added := by
  refine ⟨overlay_overlay hupper h, overlay_self hlower, hlower.overlay hupper h, ?_⟩
  intro path known fields hknown hfields
  obtain ⟨both, hboth, hoverlay⟩ := overlay_at hupper h hknown hfields
  refine ⟨both, hboth, fun key => mem_keys_overlay hoverlay, fun items further hitems hfurther => ?_⟩
  cases hupper.of_at? hfields with
  | obj hkeys _ => exact lookup_overlay_patterns hkeys hoverlay (decide_eq_true rfl) hitems hfurther

/-- One level down, a list gets what is new in it: `true` is one, and a repeated text comes once. -/
theorem overlay_layers_nested :
    UniqueKeys (.obj [("api", .obj [("abstract_glob", .arr [.int 1, .str "a"])])]) ∧
      UniqueKeys (.obj [("api", .obj [("abstract_glob", .arr [.bool true, .str "b", .str "b"])])]) ∧
      overlay [("api", .obj [("abstract_glob", .arr [.int 1, .str "a"])])]
          [("api", .obj [("abstract_glob", .arr [.bool true, .str "b", .str "b"])])] =
        .ok [("api", .obj [("abstract_glob", .arr [.int 1, .str "a", .str "b"])])] ∧
      ∃ both, at? ["api"] (.obj [("api", .obj [("abstract_glob", .arr [.int 1, .str "a", .str "b"])])]) =
          some (.obj both) ∧
        ∃ added, lookup "abstract_glob" both = some (.arr ([.int 1, .str "a"] ++ added)) ∧
          Additions [.int 1, .str "a"] [.bool true, .str "b", .str "b"] added := by
  have hunique : ∀ items : List Json, (∀ item ∈ items, UniqueKeys item) →
      UniqueKeys (.obj [("api", .obj [("abstract_glob", .arr items)])]) := fun items hitems =>
    .obj (List.nodup_singleton _) (List.forall_mem_singleton.2
      (.obj (List.nodup_singleton _) (List.forall_mem_singleton.2 (.arr hitems))))
  have hlower : ∀ item ∈ [Json.int 1, .str "a"], UniqueKeys item := by simp [UniqueKeys.int, UniqueKeys.str]
  have hupper : ∀ item ∈ [Json.bool true, .str "b", .str "b"], UniqueKeys item := by
    simp [UniqueKeys.bool, UniqueKeys.str]
  have h : overlay [("api", .obj [("abstract_glob", .arr [.int 1, .str "a"])])]
      [("api", .obj [("abstract_glob", .arr [.bool true, .str "b", .str "b"])])] =
        .ok [("api", .obj [("abstract_glob", .arr [.int 1, .str "a", .str "b"])])] := by rfl
  obtain ⟨-, -, -, hdepth⟩ := overlay_layers (hunique _ hlower) (hunique _ hupper) h
  obtain ⟨both, hboth, -, hpatterns⟩ := hdepth ["api"] _ _ rfl rfl
  exact ⟨hunique _ hlower, hunique _ hupper, h, both, hboth, hpatterns _ _ rfl rfl⟩

/-- In place of a list, a text stands for its characters. -/
example : overlay [("abstract_glob", .arr [.str "a"])] [("abstract_glob", .str "abb")] =
    .ok [("abstract_glob", .arr [.str "a", .str "b"])] := by rfl

end Json
end DocForest
