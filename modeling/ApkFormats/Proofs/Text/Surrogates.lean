import ApkFormats.Proofs.Text

/-!
# Surrogates in units of text

Nothing is asked of the units here but that each of them takes two bytes.

* `Paired`: every surrogate stands beside its partner;
* `decode_eq_ok_iff`: units are decoded to a text exactly when they are the units
  of that text;
* `paired_iff`: there is such a text exactly when all surrogates are paired;
* `encode_filter_zero`: without its zeros a text has the units that are not zero.
-/

namespace ApkFormats.Text.Utf16

variable {units front rest : List Nat} {done cs : List Char} {u v i : Nat}

section Paired

/-! ## Pairs -/

/-- A low surrogate stands right behind every high one, and a high one right in front of every low
one. -/
structure Paired (units : List Nat) : Prop where
  high : ∀ i u, units[i]? = some u → isHigh u = true →
    ∃ v, units[i + 1]? = some v ∧ isLow v = true
  low : ∀ i v, units[i]? = some v → isLow v = true →
    ∃ j u, i = j + 1 ∧ units[j]? = some u ∧ isHigh u = true

theorem isHigh_of_isLow (h : isLow v = true) : isHigh v = false := by
  simp only [isLow, isHigh, Bool.and_eq_true, Bool.and_eq_false_iff, decide_eq_true_eq,
    decide_eq_false_iff_not] at h ⊢
  omega

theorem isLow_of_isHigh (h : isHigh u = true) : isLow u = false := by
  cases hlow : isLow u with
  | false => rfl
  | true =>
      rw [isHigh_of_isLow hlow] at h
      cases h

theorem paired_nil : Paired [] where
  high _ _ h := nomatch h
  low _ _ h := nomatch h

/-- A unit that is no surrogate needs no partner. -/
theorem paired_singleton (hhigh : isHigh u = false) (hlow : isLow u = false) : Paired [u] where
  high i w hw h := by
    obtain rfl := List.mem_singleton.mp (List.mem_of_getElem? hw)
    rw [hhigh] at h
    cases h
  low i w hw h := by
    obtain rfl := List.mem_singleton.mp (List.mem_of_getElem? hw)
    rw [hlow] at h
    cases h

theorem paired_pair (hhigh : isHigh u = true) (hlow : isLow v = true) : Paired [u, v] where
  high i w hw h := by
    match i with
    | 0 => exact ⟨v, rfl, hlow⟩
    | 1 =>
        obtain rfl := Option.some.inj hw
        rw [isHigh_of_isLow hlow] at h
        cases h
  low i w hw h := by
    match i with
    | 0 =>
        obtain rfl := Option.some.inj hw
        rw [isLow_of_isHigh hhigh] at h
        cases h
    | 1 => exact ⟨0, u, rfl, rfl, hhigh⟩

/-- Behind units that are paired, the others are paired among themselves. -/
theorem paired_append_iff (hfront : Paired front) : Paired (front ++ rest) ↔ Paired rest := by
  constructor
  · rintro ⟨high, low⟩
    refine ⟨fun i u hu hhigh => ?_, fun i v hv hlow => ?_⟩
    · have hu' : (front ++ rest)[front.length + i]? = some u := by
        rwa [List.getElem?_append_right (Nat.le_add_right _ _), Nat.add_sub_cancel_left]
      obtain ⟨v, hv, hlow⟩ := high _ u hu' hhigh
      rw [Nat.add_assoc, List.getElem?_append_right (Nat.le_add_right _ _),
        Nat.add_sub_cancel_left] at hv
      exact ⟨v, hv, hlow⟩
    · have hv' : (front ++ rest)[front.length + i]? = some v := by
        rwa [List.getElem?_append_right (Nat.le_add_right _ _), Nat.add_sub_cancel_left]
      obtain ⟨j, u, hj, hu, hhigh⟩ := low _ v hv' hlow
      rcases Nat.lt_or_ge j front.length with hlt | hge
      · -- The partner would be the last unit in front, which is paired there.
        rw [List.getElem?_append_left hlt] at hu
        obtain ⟨w, hw, -⟩ := hfront.high j u hu hhigh
        have := (List.getElem?_eq_some_iff.mp hw).1
        omega
      · rw [List.getElem?_append_right hge] at hu
        exact ⟨j - front.length, u, by omega, hu, hhigh⟩
  · rintro ⟨high, low⟩
    refine ⟨fun i u hu hhigh => ?_, fun i v hv hlow => ?_⟩
    · rcases Nat.lt_or_ge i front.length with hlt | hge
      · rw [List.getElem?_append_left hlt] at hu
        obtain ⟨v, hv, hlow⟩ := hfront.high i u hu hhigh
        have hlt' := (List.getElem?_eq_some_iff.mp hv).1
        exact ⟨v, by rwa [List.getElem?_append_left hlt'], hlow⟩
      · rw [List.getElem?_append_right hge] at hu
        obtain ⟨v, hv, hlow⟩ := high _ u hu hhigh
        refine ⟨v, ?_, hlow⟩
        rwa [List.getElem?_append_right (by omega), Nat.sub_add_comm hge]
    · rcases Nat.lt_or_ge i front.length with hlt | hge
      · rw [List.getElem?_append_left hlt] at hv
        obtain ⟨j, u, rfl, hu, hhigh⟩ := hfront.low i v hv hlow
        exact ⟨j, u, rfl, by rwa [List.getElem?_append_left (by omega)], hhigh⟩
      · rw [List.getElem?_append_right hge] at hv
        obtain ⟨j, u, hj, hu, hhigh⟩ := low _ v hv hlow
        refine ⟨front.length + j, u, by omega, ?_, hhigh⟩
        rwa [List.getElem?_append_right (Nat.le_add_right _ _), Nat.add_sub_cancel_left]

/-- The units of a text are paired. -/
theorem paired_encode (cs : List Char) : Paired (encode cs) := by
  induction cs with
  | nil => exact paired_nil
  | cons c cs ih =>
      have hrange := toNat_range c
      have hchar : Paired (encodeChar c) := by
        by_cases hsmall : c.toNat < 0x10000
        · obtain ⟨hhigh, hlow⟩ := not_surrogate (u := c.toNat) (by omega)
          simpa [encodeChar, hsmall] using paired_singleton hhigh hlow
        · obtain ⟨hhigh, hlow, -⟩ := pair_of_large (c := c) (by omega)
          simpa [encodeChar, hsmall] using paired_pair hhigh hlow
      exact (paired_append_iff hchar).mpr ih

end Paired

section Exact

/-! ## Texts of units -/

theorem toNat_ofNat_of_valid {n : Nat} (h : n.isValidChar) : (Char.ofNat n).toNat = n := by
  rw [Char.ofNat, dif_pos h]
  rfl

/-- A unit that is no surrogate is the only one of its character. -/
theorem encodeChar_ofNat (hhigh : isHigh u = false) (hlow : isLow u = false) (hu : u < 0x10000) :
    encodeChar (Char.ofNat u) = [u] := by
  simp only [isHigh, isLow, Bool.and_eq_false_iff, decide_eq_false_iff_not] at hhigh hlow
  have hvalid : u.isValidChar := by
    unfold Nat.isValidChar
    omega
  simp only [encodeChar, toNat_ofNat_of_valid hvalid, if_pos hu]

/-- The character that a pair is joined to has this pair. -/
theorem encodeChar_joinPair (hhigh : isHigh u = true) (hlow : isLow v = true) :
    encodeChar (joinPair u v) = [u, v] := by
  simp only [isHigh, isLow, Bool.and_eq_true, decide_eq_true_eq] at hhigh hlow
  have hvalid : (0x10000 + 0x400 * (u - 0xD800) + (v - 0xDC00)).isValidChar := by
    unfold Nat.isValidChar
    omega
  have hchar : (joinPair u v).toNat = 0x10000 + 0x400 * (u - 0xD800) + (v - 0xDC00) := by
    rw [joinPair, toNat_ofNat_of_valid hvalid]
  have hlarge : ¬ 0x10000 + 0x400 * (u - 0xD800) + (v - 0xDC00) < 0x10000 := by omega
  simp only [encodeChar, hchar, if_neg hlarge, List.cons.injEq, and_true]
  omega

theorem decodeFrom_cons_of_plain (hhigh : ¬isHigh u = true) (hlow : ¬isLow u = true) :
    decodeFrom i done (u :: rest) = decodeFrom (i + 1) (Char.ofNat u :: done) rest := by
  rw [decodeFrom.eq_def]
  simp only [if_neg hhigh, if_neg hlow]

/-- The characters read so far keep the units that they were read from. -/
theorem encode_of_decodeFrom (hsmall : ∀ u ∈ units, u < 0x10000)
    (h : decodeFrom i done units = .ok cs) : encode cs = encode done.reverse ++ units := by
  induction i, done, units using decodeFrom.induct with
  | case1 i done =>
      cases h
      rw [List.append_nil]
  | case2 i done u hu =>
      rw [decodeFrom, if_pos hu] at h
      cases h
  | case3 i done u hu v rest hv ih =>
      rw [decodeFrom, if_pos hu, if_pos hv] at h
      rw [ih (fun w hw => hsmall w (by simp [hw])) h]
      simp [encode, encodeChar_joinPair hu hv]
  | case4 i done u hu v rest hv =>
      rw [decodeFrom, if_pos hu, if_neg hv] at h
      cases h
  | case5 i done u rest hu hlow =>
      rw [decodeFrom.eq_def] at h
      simp only [if_neg hu, if_pos hlow] at h
      cases h
  | case6 i done u rest hu hlow ih =>
      rw [decodeFrom_cons_of_plain hu hlow] at h
      rw [ih (fun w hw => hsmall w (by simp [hw])) h]
      simp [encode, encodeChar_ofNat (by simpa using hu) (by simpa using hlow)
        (hsmall u List.mem_cons_self)]

/-- Paired units are read to their end. -/
theorem succeeds_decodeFrom (i : Nat) (done : List Char) (h : Paired units) :
    ∃ cs, decodeFrom i done units = .ok cs := by
  induction i, done, units using decodeFrom.induct with
  | case1 i done => exact ⟨_, rfl⟩
  | case2 i done u hu =>
      obtain ⟨v, hv, -⟩ := h.high 0 u rfl hu
      cases hv
  | case3 i done u hu v rest hv ih =>
      obtain ⟨cs, hcs⟩ := ih ((paired_append_iff (paired_pair hu hv)).mp h)
      exact ⟨cs, by rwa [decodeFrom, if_pos hu, if_pos hv]⟩
  | case4 i done u hu v rest hv =>
      obtain ⟨w, hw, hlow⟩ := h.high 0 u rfl hu
      obtain rfl := Option.some.inj hw
      exact absurd hlow hv
  | case5 i done u rest hu hlow =>
      obtain ⟨j, w, hj, -⟩ := h.low 0 u rfl hlow
      omega
  | case6 i done u rest hu hlow ih =>
      have hsingle : Paired [u] := paired_singleton (by simpa using hu) (by simpa using hlow)
      obtain ⟨cs, hcs⟩ := ih ((paired_append_iff hsingle).mp h)
      exact ⟨cs, by rwa [decodeFrom_cons_of_plain hu hlow]⟩

/-- Units are decoded to the text whose units they are. -/
theorem decode_eq_ok_iff (hsmall : ∀ u ∈ units, u < 0x10000) :
    decode units = .ok cs ↔ encode cs = units := by
  constructor
  · exact fun h => encode_of_decodeFrom hsmall h
  · rintro rfl
    exact decode_encode cs

/-- Units are those of a text exactly when their surrogates are paired. -/
theorem paired_iff (hsmall : ∀ u ∈ units, u < 0x10000) :
    Paired units ↔ ∃ cs, encode cs = units := by
  constructor
  · intro h
    obtain ⟨cs, hcs⟩ := succeeds_decodeFrom 0 [] h
    exact ⟨cs, (decode_eq_ok_iff hsmall).mp hcs⟩
  · rintro ⟨cs, rfl⟩
    exact paired_encode cs

/-- Different texts have different units. -/
theorem encode_injective {cs cs' : List Char} (h : encode cs = encode cs') : cs = cs' := by
  have hdecode := decode_encode cs
  rw [h, decode_encode] at hdecode
  exact (Except.ok.inj hdecode).symm

/-- A text without its zeros has the units without theirs. -/
theorem encode_filter_zero (cs : List Char) :
    encode (cs.filter (· ≠ '\x00')) = (encode cs).filter (· ≠ 0) := by
  induction cs with
  | nil => rfl
  | cons c cs ih =>
      rw [encode_cons, List.filter_append, ← ih]
      by_cases hzero : c = '\x00'
      · subst hzero
        rfl
      · have hne : c.toNat ≠ 0 := fun h => hzero (Char.toNat_inj.mp h)
        have hkeep : (encodeChar c).filter (· ≠ 0) = encodeChar c := by
          rw [List.filter_eq_self]
          intro u hu
          unfold encodeChar at hu
          dsimp only at hu
          split at hu <;> simp only [List.mem_cons, List.not_mem_nil, or_false] at hu <;>
            simp only [ne_eq, decide_not, Bool.not_eq_eq_eq_not, Bool.not_true,
              decide_eq_false_iff_not] <;> omega
        rw [hkeep, List.filter_cons_of_pos (by simpa using hzero), encode_cons]

end Exact

end ApkFormats.Text.Utf16
