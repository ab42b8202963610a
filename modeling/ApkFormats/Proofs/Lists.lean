import Mathlib.Data.List.Forall2

/-!
# Lists that belong to each other

What is written and what is read are lists of the same length whose items belong
to each other in pairs.  `List.Forall₂` says so for a relation; here is how such
lists are made, combined and mapped.  Maps may fail: what their success says
comes first.
-/

namespace ApkFormats

variable {α β γ ε : Type} {R : α → β → Prop} {S : α → γ → Prop}
variable {as : List α} {bs : List β} {cs : List γ}

theorem bind_eq_ok_iff {x : Except ε α} {f : α → Except ε β} {b : β} :
    (x >>= f) = .ok b ↔ ∃ a, x = .ok a ∧ f a = .ok b := by
  cases x <;> simp [bind, Except.bind]

theorem map_eq_ok_iff {x : Except ε α} {f : α → β} {b : β} :
    x.map f = .ok b ↔ ∃ a, x = .ok a ∧ f a = b := by
  cases x <;> simp [Except.map]

theorem nodup_eraseDups [BEq α] [LawfulBEq α] (l : List α) : l.eraseDups.Nodup := by
  cases l with
  | nil => exact List.nodup_nil
  | cons a rest =>
      rw [List.eraseDups_cons, List.nodup_cons, List.mem_eraseDups]
      exact ⟨by simp, nodup_eraseDups _⟩
termination_by l.length
decreasing_by
  have hle := List.length_filter_le (fun b => !b == a) rest
  rw [List.length_cons]
  omega

theorem lookup_cons_eq {κ : Type} [DecidableEq κ] {first k : κ} {a : α} {rest : List (κ × α)} :
    ((first, a) :: rest).lookup k = if k = first then some a else rest.lookup k := by
  rw [List.lookup_cons]
  by_cases h : k = first
  · rw [if_pos h, beq_iff_eq.mpr h]
  · rw [if_neg h, beq_eq_false_iff_ne.mpr h]

/-- A result that passes a test is a value that passes it. -/
theorem exists_ok_of_any {x : Except ε α} {test : α → Bool} (h : x.toOption.any test = true) :
    ∃ a, x = .ok a ∧ test a = true := by
  cases x with
  | error e => cases h
  | ok a => exact ⟨a, rfl, h⟩

/-- When every item of a list has a counterpart, the list has one. -/
theorem exists_forall₂ (h : ∀ a ∈ as, ∃ b, R a b) : ∃ bs, List.Forall₂ R as bs := by
  induction as with
  | nil => exact ⟨[], .nil⟩
  | cons a rest ih =>
      obtain ⟨b, hb⟩ := h a List.mem_cons_self
      obtain ⟨bs, hbs⟩ := ih fun a' ha => h a' (List.mem_cons_of_mem _ ha)
      exact ⟨b :: bs, .cons hb hbs⟩

/-- What holds of the first parts of some pairs holds of the list that these come from. -/
theorem forall₂_of_zip (hlength : as.length = bs.length)
    (h : List.Forall₂ (fun pair c => S pair.1 c) (as.zip bs) cs) : List.Forall₂ S as cs := by
  have hfirst : (as.zip bs).map Prod.fst = as := List.map_fst_zip (Nat.le_of_eq hlength)
  rw [← hfirst, List.forall₂_map_left_iff]
  exact h

/-- What holds of a list beside each of two others holds of it beside their pairs. -/
theorem forall₂_zip (hR : List.Forall₂ R as bs) (hS : List.Forall₂ S as cs) :
    List.Forall₂ (fun a pair => R a pair.1 ∧ S a pair.2) as (bs.zip cs) := by
  induction hR generalizing cs with
  | nil => exact .nil
  | cons hfirst _ ih =>
      cases hS with
      | cons hsecond hrest => exact .cons ⟨hfirst, hsecond⟩ (ih hrest)

/-- What stands at an index has its counterpart at the same index. -/
theorem getElem?_of_forall₂ (h : List.Forall₂ R as bs) {i : Nat} {a : α} (ha : as[i]? = some a) :
    ∃ b, bs[i]? = some b ∧ R a b := by
  induction h generalizing i with
  | nil => cases ha
  | cons hfirst _ ih =>
      cases i with
      | zero =>
          cases ha
          exact ⟨_, rfl, hfirst⟩
      | succ i => exact ih ha

/-- An item has its counterpart in the other list. -/
theorem exists_of_mem_left (h : List.Forall₂ R as bs) {a : α} (ha : a ∈ as) : ∃ b ∈ bs, R a b := by
  obtain ⟨i, hi⟩ := List.mem_iff_getElem?.mp ha
  obtain ⟨b, hb, hR⟩ := getElem?_of_forall₂ h hi
  exact ⟨b, List.mem_of_getElem? hb, hR⟩

/-- A counterpart belongs to an item. -/
theorem exists_of_mem_right (h : List.Forall₂ R as bs) {b : β} (hb : b ∈ bs) : ∃ a ∈ as, R a b :=
  exists_of_mem_left h.flip hb

/-- A relation that only asks something of the right side asks it of every item there. -/
theorem forall₂_right_iff {P : β → Prop} (hlength : as.length = bs.length) :
    List.Forall₂ (fun _ b => P b) as bs ↔ ∀ b ∈ bs, P b := by
  constructor
  · intro h b hb
    obtain ⟨_, -, hP⟩ := exists_of_mem_right h hb
    exact hP
  · exact fun h => List.forall₂_iff_zip.mpr ⟨hlength, fun hab => h _ (List.of_mem_zip hab).2⟩

/-- Two lists have the same image when what they belong to has. -/
theorem map_eq_of_forall₂ {δ : Type} {R' : α → β → Prop} {as' : List α} {bs' : List β}
    {source source' : α → γ} {image : β → δ} (h : List.Forall₂ R as bs)
    (h' : List.Forall₂ R' as' bs') (hsource : as.map source = as'.map source')
    (hsame : ∀ a b a' b', R a b → R' a' b' → source a = source' a' → image b = image b') :
    bs.map image = bs'.map image := by
  induction h generalizing as' bs' with
  | nil =>
      cases h' with
      | nil => rfl
      | cons => cases hsource
  | cons hfirst _ ih =>
      cases h' with
      | nil => cases hsource
      | cons hfirst' hrest' =>
          obtain ⟨hhead, htail⟩ := List.cons.inj hsource
          rw [List.map_cons, List.map_cons, hsame _ _ _ _ hfirst hfirst' hhead, ih hrest' htail]

/-- What passes a test belongs to what is picked out of the other list, when it does so pair by
pair. -/
theorem forall₂_filter_filterMap {test : α → Bool} {pick : β → Option γ}
    (h : List.Forall₂ R as bs)
    (hsame : ∀ a b, R a b → Option.Rel S (Option.guard (fun a => test a) a) (pick b)) :
    List.Forall₂ S (as.filter test) (bs.filterMap pick) := by
  rw [← List.filterMap_eq_filter]
  exact List.rel_filterMap hsame h

/-- Two lists hold the same items of every key, in the same order. -/
def SameByKey {κ : Type} [DecidableEq κ] (items items' : List (κ × α)) : Prop :=
  ∀ key, (items.filter fun item => item.1 = key) = items'.filter fun item => item.1 = key

/-- Only keys of items have to be compared. -/
theorem sameByKey_iff {κ : Type} [DecidableEq κ] {items items' : List (κ × α)} :
    (∀ key ∈ (items ++ items').map Prod.fst,
      (items.filter fun item => item.1 = key) = items'.filter fun item => item.1 = key) ↔
      SameByKey items items' := by
  refine ⟨fun h key => ?_, fun h key _ => h key⟩
  by_cases hkey : key ∈ (items ++ items').map Prod.fst
  · exact h key hkey
  · have hnone : ∀ item ∈ items ++ items', ¬decide (item.1 = key) = true := fun item hitem heq =>
      hkey (List.mem_map.mpr ⟨item, hitem, of_decide_eq_true heq⟩)
    rw [List.filter_eq_nil_iff.mpr fun item h => hnone item (List.mem_append_left _ h),
      List.filter_eq_nil_iff.mpr fun item h => hnone item (List.mem_append_right _ h)]

instance {κ : Type} [DecidableEq κ] [DecidableEq α] (items items' : List (κ × α)) :
    Decidable (SameByKey items items') :=
  decidable_of_iff _ sameByKey_iff

/-- A list is mapped when each of its items is. -/
theorem mapM_ok {f : α → Except ε β} (h : List.Forall₂ (fun a b => f a = .ok b) as bs) :
    as.mapM f = .ok bs := by
  induction h with
  | nil => rfl
  | cons hfirst _ ih =>
      rw [List.mapM_cons, hfirst, ih]
      rfl

/-- Each item of a list that is mapped is. -/
theorem forall₂_of_mapM {f : α → Except ε β} (h : as.mapM f = .ok bs) :
    List.Forall₂ (fun a b => f a = .ok b) as bs := by
  induction as generalizing bs with
  | nil =>
      cases h
      exact .nil
  | cons a rest ih =>
      rw [List.mapM_cons, bind_eq_ok_iff] at h
      obtain ⟨b, hfirst, h⟩ := h
      rw [bind_eq_ok_iff] at h
      obtain ⟨bs', hrest, h⟩ := h
      cases h
      exact .cons hfirst (ih hrest)

/-- When a map fails, it fails at an item. -/
theorem exists_error_of_mapM {f : α → Except ε β} {e : ε} (h : as.mapM f = .error e) :
    ∃ a ∈ as, f a = .error e := by
  induction as with
  | nil => cases h
  | cons a rest ih =>
      rw [List.mapM_cons] at h
      cases hfirst : f a with
      | error e' =>
          rw [hfirst] at h
          cases h
          exact ⟨a, List.mem_cons_self, hfirst⟩
      | ok b =>
          cases hrest : rest.mapM f with
          | error e' =>
              rw [hfirst, hrest] at h
              cases h
              obtain ⟨a', ha', hfails⟩ := ih hrest
              exact ⟨a', List.mem_cons_of_mem _ ha', hfails⟩
          | ok bs =>
              rw [hfirst, hrest] at h
              cases h

/-- A computation gives a value. -/
def Succeeds (x : Except ε α) : Prop :=
  ∃ a, x = .ok a

theorem exists_ok_iff {x : Except ε α} : (∃ a, x = .ok a) ↔ Succeeds x :=
  Iff.rfl

theorem succeeds_ok (a : α) : Succeeds (.ok a : Except ε α) :=
  ⟨a, rfl⟩

theorem not_succeeds_error (e : ε) : ¬Succeeds (.error e : Except ε α) :=
  fun ⟨_, h⟩ => nomatch h

theorem succeeds_map_iff {x : Except ε α} {f : α → β} : Succeeds (x.map f) ↔ Succeeds x := by
  cases x with
  | ok a => exact iff_of_true (succeeds_ok _) (succeeds_ok a)
  | error e => exact iff_of_false (not_succeeds_error e) (not_succeeds_error e)

/-- Computations in turn give a value when the first one does, and with its value the second. -/
theorem succeeds_bind_iff {x : Except ε α} {f : α → Except ε β} :
    Succeeds (x >>= f) ↔ ∃ a, x = .ok a ∧ Succeeds (f a) := by
  constructor
  · rintro ⟨b, h⟩
    obtain ⟨a, hfirst, hrest⟩ := bind_eq_ok_iff.mp h
    exact ⟨a, hfirst, b, hrest⟩
  · rintro ⟨a, hfirst, b, hrest⟩
    exact ⟨b, bind_eq_ok_iff.mpr ⟨a, hfirst, hrest⟩⟩

theorem succeeds_mapM_iff {f : α → Except ε β} :
    Succeeds (as.mapM f) ↔ ∀ a ∈ as, Succeeds (f a) := by
  constructor
  · rintro ⟨bs, h⟩ a ha
    obtain ⟨b, -, hb⟩ := exists_of_mem_left (forall₂_of_mapM h) ha
    exact ⟨b, hb⟩
  · intro h
    obtain ⟨bs, hall⟩ := exists_forall₂ h
    exact ⟨bs, mapM_ok hall⟩

/-- Items that belong to sources are mapped to what these are shown as. -/
theorem mapM_exists {f : β → Except ε γ} (h : List.Forall₂ R as bs)
    (hf : ∀ a ∈ as, ∀ b, R a b → ∃ c, f b = .ok c ∧ S a c) :
    ∃ cs, bs.mapM f = .ok cs ∧ List.Forall₂ S as cs := by
  induction h with
  | nil => exact ⟨[], rfl, .nil⟩
  | cons hfirst _ ih =>
      obtain ⟨c, hc, hshown⟩ := hf _ List.mem_cons_self _ hfirst
      obtain ⟨cs, hcs, hall⟩ := ih fun a ha => hf a (List.mem_cons_of_mem _ ha)
      refine ⟨c :: cs, ?_, .cons hshown hall⟩
      rw [List.mapM_cons, hc, hcs]
      rfl

/-- Two lists that belong to the same sources belong to each other. -/
theorem forall₂_of_common (hR : List.Forall₂ R as bs) (hS : List.Forall₂ S as cs) :
    List.Forall₂ (fun b c => ∃ a ∈ as, R a b ∧ S a c) bs cs := by
  induction hR generalizing cs with
  | nil =>
      cases hS
      exact .nil
  | cons hfirst _ ih =>
      cases hS with
      | cons hsecond hrest =>
          refine .cons ⟨_, List.mem_cons_self, hfirst, hsecond⟩ ((ih hrest).imp ?_)
          rintro b c ⟨a, ha, hab, hac⟩
          exact ⟨a, List.mem_cons_of_mem _ ha, hab, hac⟩

/-- A relation of optional items carries over to a weaker relation. -/
theorem optionRel_imp {R' : α → β → Prop} (himp : ∀ a b, R a b → R' a b) {o : Option α}
    {o' : Option β} (h : Option.Rel R o o') : Option.Rel R' o o' := by
  cases h with
  | none => exact .none
  | some hR => exact .some (himp _ _ hR)

end ApkFormats
