import Vfobs.Foundations.Json

/-!
# Reading JSON back from a store

A store that keeps JSON values does not keep their notation: the fields of an object come
back in some order, and a float with an integral value may come back as an integer.
`ReadsBackAs` is this relation between a value and what is read for it.

A reader *keeps* its results when it reads the same out of either (`KeepsReads` for a reader
of the fields of an object, `KeepsReadBack` for a codec). Readers are built from `required`
and `nullable` by binds, and so are the proofs that they keep their results.
-/

open JsonCodec

namespace Json

/-- `j'` is read back for `j`. -/
inductive ReadsBackAs : Json → Json → Prop
  | null : ReadsBackAs .null .null
  | bool (b : Bool) : ReadsBackAs (.bool b) (.bool b)
  | int (n : ℤ) : ReadsBackAs (.int n) (.int n)
  | float (q : ℚ) : ReadsBackAs (.float q) (.float q)
  | integral (n : ℤ) : ReadsBackAs (.float n) (.int n)
  | str (s : String) : ReadsBackAs (.str s) (.str s)
  | arr {items items' : List Json} (h : List.Forall₂ ReadsBackAs items items') :
      ReadsBackAs (.arr items) (.arr items')
  | obj {fs fs' : List (String × Json)}
      (keys : ∀ key, (fs.lookup key).isSome = (fs'.lookup key).isSome)
      (values : ∀ key v v', fs.lookup key = some v → fs'.lookup key = some v' → ReadsBackAs v v')
      (nodup : (fs'.map Prod.fst).Nodup) : ReadsBackAs (.obj fs) (.obj fs')

end Json

/-- The fields `fs'` of an object are read back for `fs`. -/
structure FieldsReadBack (fs fs' : List (String × Json)) : Prop where
  keys : ∀ key, (fs.lookup key).isSome = (fs'.lookup key).isSome
  values : ∀ key v v', fs.lookup key = some v → fs'.lookup key = some v' →
    Json.ReadsBackAs v v'
  nodup : (fs'.map Prod.fst).Nodup

namespace FieldsReadBack

variable {fs fs' : List (String × Json)} {key : String} {v : Json}

theorem absent (h : FieldsReadBack fs fs') (hv : fs.lookup key = none) :
    fs'.lookup key = none := by
  have hkey := h.keys key
  rw [hv] at hkey
  exact Option.isSome_eq_false_iff.mp hkey.symm |> Option.isNone_iff_eq_none.mp

theorem present (h : FieldsReadBack fs fs') (hv : fs.lookup key = some v) :
    ∃ v', fs'.lookup key = some v' ∧ Json.ReadsBackAs v v' := by
  have hkey := h.keys key
  rw [hv] at hkey
  obtain ⟨v', hv'⟩ := Option.isSome_iff_exists.mp hkey.symm
  exact ⟨v', hv', h.values key v v' hv hv'⟩

end FieldsReadBack

/-- A reader of fields whose results outlast a store. -/
structure KeepsReads {α : Type} (read : List (String × Json) → Option α) : Prop where
  keeps : ∀ {fs fs' : List (String × Json)} {a : α}, FieldsReadBack fs fs' → read fs = some a →
    read fs' = some a

/-- A codec whose results outlast a store. -/
class KeepsReadBack (α : Type) [JsonCodec α] : Prop where
  keeps : ∀ {j j' : Json} {a : α}, j.ReadsBackAs j' → validate j = some a → validate j' = some a

namespace KeepsReads

variable {α β : Type}

theorem pure (a : α) : KeepsReads fun _ => some a := ⟨fun _ h => h⟩

/-- A reader that goes on with what another has read. -/
theorem bind {read : List (String × Json) → Option α}
    {next : α → List (String × Json) → Option β} (hread : KeepsReads read)
    (hnext : ∀ a, KeepsReads (next a)) : KeepsReads fun fs => read fs >>= fun a => next a fs := by
  refine ⟨fun hfs h => ?_⟩
  obtain ⟨a, ha, hb⟩ := Option.bind_eq_some_iff.mp h
  exact Option.bind_eq_some_iff.mpr ⟨a, hread.keeps hfs ha, (hnext a).keeps hfs hb⟩

variable [JsonCodec α] [KeepsReadBack α]

theorem required (key : String) :
    KeepsReads (fun fs => (JsonCodec.required fs key : Option α)) := by
  refine ⟨fun hfs h => ?_⟩
  obtain ⟨v, hv, ha⟩ := Option.bind_eq_some_iff.mp h
  obtain ⟨v', hv', hback⟩ := hfs.present hv
  exact Option.bind_eq_some_iff.mpr ⟨v', hv', KeepsReadBack.keeps hback ha⟩

/-- `null` is read back as itself, and nothing else is read back as `null`. -/
theorem validateOption_of_readsBackAs {j j' : Json} {o : Option α} (hback : j.ReadsBackAs j')
    (h : validateOption j = some o) : validateOption j' = some o := by
  cases hback with
  | null => exact h
  | bool | int | float | integral | str | arr | obj =>
    obtain ⟨a, ha, rfl⟩ := Option.map_eq_some_iff.mp h
    refine Option.map_eq_some_iff.mpr ⟨a, KeepsReadBack.keeps ?_ ha, rfl⟩
    constructor <;> assumption

theorem nullable (key : String) :
    KeepsReads (fun fs => (JsonCodec.nullable fs key : Option (Option α))) := by
  refine ⟨fun {fs fs' o} hfs h => ?_⟩
  simp only [JsonCodec.nullable] at h ⊢
  cases hv : fs.lookup key with
  | none =>
    rw [hv] at h
    rw [hfs.absent hv]
    exact h
  | some v =>
    rw [hv] at h
    obtain ⟨v', hv', hback⟩ := hfs.present hv
    rw [hv']
    exact validateOption_of_readsBackAs hback h

end KeepsReads

/-- A record codec keeps what its reader does. -/
theorem KeepsReadBack.ofFields {α : Type} {write : α → List (String × Json)}
    {read : List (String × Json) → Option α} {h : ∀ a, read (write a) = some a}
    (hread : KeepsReads read) : @KeepsReadBack α (JsonCodec.ofFields write read h) := by
  refine @KeepsReadBack.mk α (JsonCodec.ofFields write read h) fun {j j' a} hback ha => ?_
  cases hback with
  | obj keys values nodup => exact hread.keeps ⟨keys, values, nodup⟩ ha
  | null | bool | int | float | integral | str | arr => exact nomatch ha

/-! ### The basic types -/

instance : KeepsReadBack String where
  keeps hback h := by
    cases hback with
    | str => exact h
    | null | bool | int | float | integral | arr | obj => exact nomatch h

instance : KeepsReadBack ℤ where
  keeps hback h := by
    cases hback with
    | int => exact h
    | null | bool | float | integral | str | arr | obj => exact nomatch h

instance : KeepsReadBack ℚ where
  keeps hback h := by
    cases hback with
    | int | float | integral => exact h
    | null | bool | str | arr | obj => exact nomatch h

instance : KeepsReadBack IsoDatetime where
  keeps hback h := by
    cases hback with
    | str => exact h
    | null | bool | int | float | integral | arr | obj => exact nomatch h

/-- The texts of an array. -/
theorem mapM_asStr?_of_readsBackAs {items items' : List Json} {texts : List String}
    (hback : List.Forall₂ Json.ReadsBackAs items items')
    (h : items.mapM Json.asStr? = some texts) : items'.mapM Json.asStr? = some texts := by
  induction hback generalizing texts with
  | nil => exact h
  | @cons j j' items items' hj _ ih =>
    rw [List.mapM_cons] at h ⊢
    obtain ⟨text, htext, h⟩ := Option.bind_eq_some_iff.mp h
    obtain ⟨texts', htexts', h⟩ := Option.bind_eq_some_iff.mp h
    have htext' : j'.asStr? = some text := KeepsReadBack.keeps (α := String) hj htext
    rw [htext', ih htexts']
    exact h

instance : KeepsReadBack (List String) where
  keeps hback h := by
    cases hback with
    | arr hitems => exact mapM_asStr?_of_readsBackAs hitems h
    | null | bool | int | float | integral | str | obj => exact nomatch h

/-! ### Dictionaries of texts -/

/-- Equality of dictionaries. -/
def StrDict.SameAs (d d' : StrDict) : Prop := ∀ key, d.1.lookup key = d'.1.lookup key

theorem lookup_map_snd {β γ : Type} (f : β → γ) (l : List (String × β)) (key : String) :
    (l.map fun p => (p.1, f p.2)).lookup key = (l.lookup key).map f := by
  induction l with
  | nil => rfl
  | cons p l ih =>
    rw [List.map_cons, List.lookup_cons, List.lookup_cons]
    cases key == p.1 with
    | true => rfl
    | false => exact ih

theorem lookup_map_key {β γ : Type} (g : String → γ) (l : List (String × β)) (key : String) :
    (l.map fun p => (p.1, g p.1)).lookup key = (l.lookup key).map fun _ => g key := by
  induction l with
  | nil => rfl
  | cons p l ih =>
    rw [List.map_cons, List.lookup_cons, List.lookup_cons]
    cases h : key == p.1 with
    | true => rw [eq_of_beq h]; rfl
    | false => exact ih

/-- The entry of a key, where keys are distinct. -/
theorem lookup_eq_some_of_mem {β : Type} {l : List (String × β)} (h : (l.map Prod.fst).Nodup)
    {p : String × β} (hp : p ∈ l) : l.lookup p.1 = some p.2 := by
  induction l with
  | nil => exact absurd hp List.not_mem_nil
  | cons q l ih =>
    obtain ⟨hq, hl⟩ := List.nodup_cons.mp h
    rcases List.mem_cons.mp hp with rfl | hp
    · exact List.lookup_cons_self
    · have hne : p.1 ≠ q.1 := fun heq => hq (heq ▸ List.mem_map_of_mem hp)
      rw [List.lookup_cons, beq_false_of_ne hne]
      exact ih hl hp

theorem strItems_eq_some_iff {fs : List (String × Json)} {items : List (String × String)} :
    strItems fs = some items ↔ fs = items.map fun p => (p.1, .str p.2) := by
  constructor
  · intro h
    induction fs generalizing items with
    | nil =>
      obtain rfl := Option.some.inj h
      rfl
    | cons f fs ih =>
      rw [strItems, List.mapM_cons] at h
      obtain ⟨p, hp, h⟩ := Option.bind_eq_some_iff.mp h
      obtain ⟨rest, hrest, h⟩ := Option.bind_eq_some_iff.mp h
      obtain ⟨s, hs, rfl⟩ := Option.map_eq_some_iff.mp hp
      obtain rfl := Option.some.inj h
      obtain ⟨key, v⟩ := f
      cases v with
      | str =>
        obtain rfl := Option.some.inj hs
        rw [List.map_cons, ih hrest]
      | null | bool | int | float | arr | obj => exact nomatch hs
  · rintro rfl
    exact strItems_map items

/-- **A dictionary of texts is read back with the same entries.** -/
theorem validate_strDict_of_readsBackAs {d : StrDict} {j' : Json}
    (hback : (dump d).ReadsBackAs j') : ∃ d' : StrDict, validate j' = some d' ∧ d.SameAs d' := by
  cases hback with
  | @obj _ fs' keys values nodup =>
    have hlookup : ∀ key, (d.1.map fun p => (p.1, Json.str p.2)).lookup key =
        (d.1.lookup key).map Json.str := lookup_map_snd Json.str d.1
    -- what is read back for a text is the text
    have htext : ∀ p ∈ fs', ∃ s, p.2 = .str s ∧ d.1.lookup p.1 = some s := by
      intro p hp
      have hp' := lookup_eq_some_of_mem nodup hp
      have hkey := keys p.1
      rw [hp', hlookup, Option.isSome_map] at hkey
      obtain ⟨s, hs⟩ := Option.isSome_iff_exists.mp hkey
      have hvalue := values p.1 (.str s) p.2 (by rw [hlookup, hs]; rfl) hp'
      cases hp2 : p.2 with
      | str =>
        rw [hp2] at hvalue
        cases hvalue with
        | str => exact ⟨s, rfl, hs⟩
      | null | bool | int | float | arr | obj =>
        rw [hp2] at hvalue
        exact nomatch hvalue
    set items := fs'.map fun p => (p.1, (d.1.lookup p.1).getD "") with hitems
    have hfs' : fs' = items.map fun p => (p.1, Json.str p.2) := by
      rw [hitems, List.map_map]
      refine (List.map_id fs').symm.trans (List.map_congr_left fun p hp => ?_)
      obtain ⟨s, hp2, hs⟩ := htext p hp
      simp [hs, ← hp2]
    have hnodup : (items.map Prod.fst).Nodup := by
      rw [hitems, List.map_map]
      exact nodup
    refine ⟨⟨items, hnodup⟩, ?_, fun key => ?_⟩
    · show (strItems fs').bind _ = _
      rw [strItems_eq_some_iff.mpr hfs', Option.bind_some, dif_pos hnodup]
    · have hkey := keys key
      rw [hlookup, Option.isSome_map] at hkey
      show d.1.lookup key = items.lookup key
      rw [hitems, lookup_map_key fun key => (d.1.lookup key).getD ""]
      cases hd : d.1.lookup key with
      | none =>
        rw [hd] at hkey
        rw [Option.isNone_iff_eq_none.mp (Option.isSome_eq_false_iff.mp hkey.symm), Option.map_none]
      | some s =>
        rw [hd] at hkey
        obtain ⟨v, hv⟩ := Option.isSome_iff_exists.mp hkey.symm
        rw [hv, Option.map_some, Option.getD_some]
