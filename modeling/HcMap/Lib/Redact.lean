import Mathlib.Data.List.Infix
import Mathlib.Data.List.TakeDrop

/-!
# Redaction

A token is a text of a fixed shape between two word boundaries. Each one, from
the left, is replaced by a mark; no token is left, and none comes into being
where a mark meets the text around it.
-/

namespace Redact

structure Token where
  word : Char → Bool
  /-- What may stand at each place. -/
  shape : List (Char → Bool)
  mark : List Char
  starts : ∀ p ∈ shape.head?, ∀ c, p c → word c
  ends : ∀ p ∈ shape.getLast?, ∀ c, p c → word c
  filled : shape ≠ []
  opens : ∃ m ms, mark = m :: ms ∧ word m = false ∧ ∀ p ∈ shape, p m = false
  /-- No part of the mark begins a token. -/
  apart : ∀ text ∈ mark.tails, text ≠ [] → (List.zipWith (· ·) shape text).any (!·)

def fits : List (Char → Bool) → List Char → Bool
  | [], _ => true
  | _ :: _, [] => false
  | p :: ps, c :: cs => p c && fits ps cs

namespace Token

variable (t : Token)

def length : Nat := t.shape.length

def boundary (before after : Option Char) : Bool := before.any t.word != after.any t.word

def matchesAt (before : Option Char) (cs : List Char) : Bool :=
  fits t.shape cs && t.boundary before cs.head? &&
    t.boundary (cs.take t.length).getLast? (cs.drop t.length).head?

/-- `re.sub`; the first number counts the characters of a token that are left. -/
def sub : Nat → Option Char → List Char → List Char
  | _, _, [] => []
  | left + 1, _, c :: cs => sub left (some c) cs
  | 0, before, c :: cs =>
    if t.matchesAt before (c :: cs) then t.mark ++ sub (t.length - 1) (some c) cs
    else c :: sub 0 (some c) cs

def Free : Option Char → List Char → Prop
  | _, [] => True
  | before, c :: cs => t.matchesAt before (c :: cs) = false ∧ Free (some c) cs

end Token

section
variable {t : Token} {ps : List (Char → Bool)} {before after : Option Char} {c : Char}
  {cs text : List Char}

theorem fits_length (h : fits ps cs) : ps.length ≤ cs.length := by
  induction ps generalizing cs with
  | nil => exact Nat.zero_le _
  | cons p ps ih =>
    cases cs with
    | nil => cases h
    | cons c cs =>
      simp only [fits, Bool.and_eq_true] at h
      exact Nat.succ_le_succ (ih h.2)

theorem fits_head {p : Char → Bool} (h : fits (p :: ps) (c :: cs)) : p c := by
  simp only [fits, Bool.and_eq_true] at h
  exact h.1

theorem fits_getLast (h : fits ps cs) :
    ∀ p ∈ ps.getLast?, ∃ c ∈ (cs.take ps.length).getLast?, p c := by
  induction ps generalizing cs with
  | nil => simp
  | cons p ps ih =>
    cases cs with
    | nil => cases h
    | cons c cs =>
      have hrest : fits ps cs := by
        simp only [fits, Bool.and_eq_true] at h
        exact h.2
      cases ps with
      | nil => simpa using fits_head h
      | cons q ps =>
        cases cs with
        | nil => cases hrest
        | cons d cs => simpa [List.getLast?_cons_cons] using ih hrest

theorem not_fits_append (h : (List.zipWith (· ·) ps text).any (!·)) :
    fits ps (text ++ cs) = false := by
  induction ps generalizing text with
  | nil => simp at h
  | cons p ps ih =>
    cases text with
    | nil => simp at h
    | cons c text =>
      simp only [List.zipWith_cons_cons, List.any_cons, Bool.or_eq_true, Bool.not_eq_true'] at h
      simp only [List.cons_append, fits, Bool.and_eq_false_iff]
      exact h.imp_right ih

theorem getLast?_cons_or (c : Char) (cs : List Char) (before : Option Char) :
    (c :: cs).getLast?.or before = cs.getLast?.or (some c) := by
  cases cs with
  | nil => rfl
  | cons d cs => rw [List.getLast?_cons_cons]; simp [List.getLast?_cons]

theorem Token.sub_skip (left : Nat) :
    t.sub left before cs = t.sub 0 ((cs.take left).getLast?.or before) (cs.drop left) := by
  induction left generalizing before cs with
  | zero => simp
  | succ left ih =>
    cases cs with
    | nil => simp [Token.sub]
    | cons c cs => rw [Token.sub, ih, List.take_succ_cons, getLast?_cons_or, List.drop_succ_cons]

theorem Token.fits_sub (hps : ∀ p ∈ ps, p ∈ t.shape) (h : fits ps (t.sub 0 before cs)) :
    fits ps cs ∧ t.sub 0 before cs = cs.take ps.length ++
      t.sub 0 ((cs.take ps.length).getLast?.or before) (cs.drop ps.length) := by
  induction ps generalizing before cs with
  | nil => simp [fits]
  | cons p ps ih =>
    cases cs with
    | nil => simp [Token.sub, fits] at h
    | cons c cs =>
      rw [Token.sub] at h ⊢
      split_ifs at h ⊢ with hmatch
      · obtain ⟨m, ms, hmark, -, hm⟩ := t.opens
        rw [hmark, List.cons_append] at h
        exact absurd (fits_head h) (by simp [hm p (hps p List.mem_cons_self)])
      · simp only [fits, Bool.and_eq_true] at h
        obtain ⟨hfits, hsub⟩ := ih (fun q hq => hps q (List.mem_cons_of_mem _ hq)) h.2
        refine ⟨by simp [fits, h.1, hfits], ?_⟩
        rw [List.length_cons, List.take_succ_cons, List.drop_succ_cons, getLast?_cons_or,
          List.cons_append, ← hsub]

theorem Token.free_append {mark : List Char}
    (h : ∀ text ∈ mark.tails, text ≠ [] → (List.zipWith (· ·) t.shape text).any (!·))
    (hcs : t.Free (mark.getLast?.or before) cs) : t.Free before (mark ++ cs) := by
  induction mark generalizing before with
  | nil => simpa using hcs
  | cons m mark ih =>
    have hm : fits t.shape (m :: (mark ++ cs)) = false :=
      not_fits_append (h (m :: mark) (by simp) (by simp))
    rw [List.cons_append]
    refine ⟨by simp only [Token.matchesAt, hm, Bool.false_and], ih (fun text htext => ?_) ?_⟩
    · have hsuffix := (List.mem_tails text mark).mp htext
      exact h text ((List.mem_tails text (m :: mark)).mpr (hsuffix.trans (List.suffix_cons m mark)))
    · rwa [getLast?_cons_or] at hcs

theorem Token.word_head (h : fits t.shape (c :: cs)) : t.word c := by
  obtain ⟨p, ps, hshape⟩ := List.exists_cons_of_ne_nil t.filled
  rw [hshape] at h
  exact t.starts p (by simp [hshape]) c (fits_head h)

theorem Token.word_last (h : fits t.shape cs) :
    ∃ c ∈ (cs.take t.length).getLast?, t.word c := by
  obtain ⟨p, hp⟩ := Option.isSome_iff_exists.mp (List.getLast?_isSome.mpr t.filled)
  obtain ⟨c, hc, hpc⟩ := fits_getLast h p hp
  exact ⟨c, hc, t.ends p hp c hpc⟩

theorem Token.head_after (h : t.matchesAt before cs) :
    ∀ c ∈ (cs.drop t.length).head?, t.word c = false := by
  intro c hc
  simp only [Token.matchesAt, Bool.and_eq_true] at h
  obtain ⟨d, hd, hword⟩ := t.word_last h.1.1
  simpa [Token.boundary, Option.mem_def.mp hc, Option.mem_def.mp hd, hword] using h.2

theorem Token.boundary_sub (h : t.boundary before (t.sub 0 before cs).head?) :
    t.boundary before cs.head? := by
  cases cs with
  | nil => exact h
  | cons e cs =>
    rw [Token.sub] at h
    split_ifs at h with hmatch
    · simp only [Token.matchesAt, Bool.and_eq_true] at hmatch
      exact hmatch.1.2
    · exact h

theorem Token.matchesAt_of_sub (hafter : after = before ∨ ∀ c ∈ cs.head?, t.word c = false)
    (h : t.matchesAt after (t.sub 0 before cs)) : t.matchesAt before cs := by
  simp only [Token.matchesAt, Bool.and_eq_true] at h ⊢
  obtain ⟨⟨hfits, hbefore⟩, hnext⟩ := h
  obtain ⟨hfits', hsub⟩ := t.fits_sub (fun _ hp => hp) hfits
  have hlength : (cs.take t.length).length = t.length := by
    rw [List.length_take]
    exact min_eq_left (fits_length hfits')
  obtain ⟨d, hd, hword⟩ := t.word_last hfits'
  rw [← Token.length] at hsub
  refine ⟨⟨hfits', ?_⟩, ?_⟩
  · rcases hafter with rfl | hplain
    · exact t.boundary_sub hbefore
    · cases cs with
      | nil => exact absurd hd (by simp)
      | cons c cs => exact absurd (t.word_head hfits') (by simp [hplain c rfl])
  · rw [hsub, List.take_left' hlength, List.drop_left' hlength] at hnext
    rw [Option.mem_def.mp hd] at hnext ⊢
    exact t.boundary_sub hnext

/-- No token is left. -/
theorem Token.free_sub (hafter : after = before ∨ ∀ c ∈ cs.head?, t.word c = false) :
    t.Free after (t.sub 0 before cs) := by
  have hlength : t.length = t.length - 1 + 1 :=
    (Nat.succ_pred_eq_of_pos (List.length_pos_of_ne_nil t.filled)).symm
  induction h : cs.length using Nat.strong_induction_on generalizing cs before after with
  | _ n ih =>
    cases cs with
    | nil => trivial
    | cons c cs =>
      have hkept := t.matchesAt_of_sub hafter
      rw [Token.sub] at hkept ⊢
      split_ifs at hkept ⊢ with hmatch
      · rw [t.sub_skip]
        have hplain := t.head_after hmatch
        rw [hlength, List.drop_succ_cons] at hplain
        refine t.free_append t.apart (ih _ ?_ (.inr hplain) rfl)
        rw [List.length_drop, ← h, List.length_cons]
        omega
      · exact ⟨Bool.eq_false_iff.mpr fun htoken => hmatch (hkept htoken),
          ih cs.length (by rw [← h]; exact Nat.lt_succ_self _) (.inl rfl) rfl⟩

theorem Token.sub_of_free (h : t.Free before cs) : t.sub 0 before cs = cs := by
  induction cs generalizing before with
  | nil => rfl
  | cons c cs ih => rw [Token.sub, h.1, if_neg (by simp), ih h.2]

theorem Token.Free.of_append {pre : List Char} (h : t.Free before (pre ++ cs)) :
    t.Free (pre.getLast?.or before) cs := by
  induction pre generalizing before with
  | nil => simpa using h
  | cons c pre ih =>
    rw [getLast?_cons_or]
    exact ih h.2

def Token.Is (t : Token) (text : List Char) : Prop := fits t.shape text ∧ text.length = t.length

theorem fits_append (cs : List Char) (h : fits ps text) : fits ps (text ++ cs) := by
  induction ps generalizing text with
  | nil => rfl
  | cons p ps ih =>
    cases text with
    | nil => cases h
    | cons c text =>
      simp only [List.cons_append, fits, Bool.and_eq_true] at h ⊢
      exact ⟨h.1, ih h.2⟩

theorem Token.Is.matchesAt (h : t.Is text) (hbefore : before.any t.word = false)
    (hnext : cs.head?.any t.word = false) : t.matchesAt before (text ++ cs) := by
  obtain ⟨hfits, hlength⟩ := h
  have hall := fits_append cs hfits
  obtain ⟨d, hd, hlast⟩ := t.word_last hall
  cases text with
  | nil => exact absurd hlength.symm (by simp [Token.length, t.filled])
  | cons c text =>
    have hfirst := t.word_head hall
    simp only [Token.matchesAt, Bool.and_eq_true]
    refine ⟨⟨hall, ?_⟩, ?_⟩
    · simp [Token.boundary, hbefore, hfirst]
    · rw [Option.mem_def.mp hd, List.drop_left' hlength]
      simp [Token.boundary, hnext, hlast]

theorem Token.Is.not_free (h : t.Is text) (hbefore : before.any t.word = false)
    (hnext : cs.head?.any t.word = false) : ¬ t.Free before (text ++ cs) := by
  intro hfree
  have htoken := h.matchesAt hbefore hnext
  cases text with
  | nil => exact absurd h.2.symm (by simp [Token.length, t.filled])
  | cons c text => exact Bool.noConfusion (hfree.1.symm.trans htoken)

/-- Where words are kept apart by a separator, no word of a text without tokens
is one. -/
theorem Token.Free.not_is {sep : Char} {words : List (List Char)} (hsep : t.word sep = false)
    (hbefore : before.any t.word = false) (h : t.Free before ([sep].intercalate words))
    (htext : text ∈ words) : ¬ t.Is text := by
  intro his
  induction words generalizing before with
  | nil => cases htext
  | cons word words ih =>
    cases words with
    | nil =>
      rw [List.mem_singleton.mp htext] at his
      rw [List.intercalate_singleton, ← List.append_nil word] at h
      exact his.not_free hbefore rfl h
    | cons word' words =>
      rw [List.intercalate_cons_cons, List.append_assoc, List.singleton_append] at h
      rcases List.mem_cons.mp htext with rfl | hrest
      · exact his.not_free hbefore (by simp [hsep]) h
      · exact ih (by simp [hsep]) h.of_append.2 hrest

end

end Redact
