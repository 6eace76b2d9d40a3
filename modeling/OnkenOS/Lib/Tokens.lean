import Mathlib.Data.List.TakeWhile
import Mathlib.Logic.Function.Iterate

/-!
# Tokens

The pieces of a list between its delimiters, without the empty ones. A reader that skips the leading
delimiters, takes what comes before the next one and goes on behind it finds them one after the
other: what is left after `k` of them has the tokens that are left (`tokens_behind_iterate`).
-/

namespace Tokens

variable {α : Type*} (p : α → Bool)

/-- The pieces between the delimiters that are not empty. -/
def tokens (s : List α) : List (List α) := (s.splitOnP p).filter fun t => !t.isEmpty

/-- From the first element on that is not a delimiter. -/
def body (s : List α) : List α := s.dropWhile p

/-- The elements before the next delimiter. -/
def word (s : List α) : List α := s.takeWhile fun a => !p a

/-- What is left behind the first token and the delimiter after it. -/
def behind (s : List α) : List α := ((body p s).dropWhile fun a => !p a).tail

/-- `front` is what was read for the first `k` tokens of `s`, and `rest` is what follows it:
nothing, or all that is behind the delimiter that ended the last one. -/
structure EndsToken (k : Nat) (s front rest : List α) : Prop where
  read : tokens p front = (tokens p s).take k
  last : ∃ a, front.getLast? = some a ∧ p a = false
  rest : s = front ∧ rest = [] ∨ ∃ a, p a = true ∧ s = front ++ a :: rest

section
variable {p} {s w : List α} {a : α}

@[simp] theorem tokens_nil : tokens p [] = [] := rfl

/-- A delimiter at the front is in no token. -/
theorem tokens_cons_delim (ha : p a = true) : tokens p (a :: s) = tokens p s := by
  simp [tokens, List.splitOnP_cons_eq_if_modifyHead, ha]

/-- Leading delimiters hide no token. -/
theorem tokens_body (p : α → Bool) (s : List α) : tokens p (body p s) = tokens p s := by
  induction s with
  | nil => rfl
  | cons a s ih =>
      unfold body
      rw [List.dropWhile_cons]
      split
      · next ha => rw [tokens_cons_delim ha, ← ih, body]
      · rfl

/-- A word up to the end. -/
theorem tokens_word (hw : ∀ a ∈ w, p a = false) (hne : w ≠ []) : tokens p w = [w] := by
  rw [tokens, List.splitOnP_eq_singleton hw]
  simp [hne]

/-- A word up to a delimiter is the first token, and the others are behind that delimiter. -/
theorem tokens_word_append (hw : ∀ a ∈ w, p a = false) (hne : w ≠ []) (ha : p a = true)
    (s : List α) : tokens p (w ++ a :: s) = w :: tokens p s := by
  rw [tokens, List.splitOnP_append_cons_of_forall_mem hw a ha]
  simp [hne, tokens]

/-- What `dropWhile` leaves starts with an element that fails the test. -/
theorem head_dropWhile {q : α → Bool} {t : List α} (h : s.dropWhile q = a :: t) : q a = false := by
  induction s with
  | nil => cases h
  | cons b s ih =>
      rw [List.dropWhile_cons] at h
      split at h
      · exact ih h
      · next hb =>
          cases h
          simpa using hb

/-- A word has no delimiter in it. -/
theorem of_mem_word (ha : a ∈ word p s) : p a = false := by
  simpa using List.mem_takeWhile_imp ha

/-- Behind the delimiters at the front there is a word, unless nothing is left. -/
theorem word_ne_nil (h : body p s ≠ []) : word p (body p s) ≠ [] := by
  cases hs : body p s with
  | nil => exact absurd hs h
  | cons a t => simp [word, head_dropWhile hs]

/-- The first token, and what follows it. -/
theorem word_append (p : α → Bool) (s : List α) :
    word p (body p s) ++ (body p s).dropWhile (fun a => !p a) = body p s :=
  List.takeWhile_append_dropWhile

/-- Nothing follows a token that is all there is: the reader has come to the end. -/
theorem dropWhile_eq_nil_of_word (h : word p (body p s) = body p s) :
    (body p s).dropWhile (fun a => !p a) = [] := by
  have hsplit := word_append p s
  rwa [h, List.append_right_eq_self] at hsplit

/-- The first token and the others: those of what is behind it. -/
theorem tokens_eq_cons (h : body p s ≠ []) :
    tokens p s = word p (body p s) :: tokens p (behind p s) := by
  have hword : ∀ a ∈ word p (body p s), p a = false := fun a ha => of_mem_word ha
  have hsplit := word_append p s
  have hne := word_ne_nil h
  unfold behind
  rw [← tokens_body]
  cases hrest : (body p s).dropWhile fun a => !p a with
  | nil =>
      rw [hrest, List.append_nil] at hsplit
      rw [hsplit] at hword hne ⊢
      exact tokens_word hword hne
  | cons a t =>
      have ha : p a = true := by simpa using head_dropWhile hrest
      rw [hrest] at hsplit
      generalize word p (body p s) = w at *
      rw [← hsplit]
      exact tokens_word_append hword hne ha t

/-- Nothing but delimiters. -/
theorem tokens_eq_nil (h : body p s = []) : tokens p s = [] := by
  rw [← tokens_body, h, tokens_nil]

/-- Where there is no token, nothing is behind it. -/
theorem behind_eq_nil (h : body p s = []) : behind p s = [] := by
  rw [behind, h]
  rfl

/-- What the reader leaves has the other tokens, in their order. -/
theorem tokens_behind (p : α → Bool) (s : List α) : tokens p (behind p s) = (tokens p s).tail := by
  by_cases h : body p s = []
  · rw [tokens_eq_nil h, behind_eq_nil h]
    rfl
  · rw [tokens_eq_cons h, List.tail_cons]

/-- After `k` tokens the other ones are left. -/
theorem tokens_behind_iterate (p : α → Bool) (k : Nat) (s : List α) :
    tokens p ((behind p)^[k] s) = (tokens p s).drop k := by
  induction k generalizing s with
  | zero => rfl
  | succ k ih => rw [Function.iterate_succ_apply, ih, tokens_behind, List.drop_tail]

/-- After the last token nothing is left, so further reads find nothing. -/
theorem behind_iterate_eq_nil {k : Nat} (hk : (tokens p s).length ≤ k) :
    (behind p)^[k + 1] s = [] := by
  have hnone : tokens p ((behind p)^[k] s) = [] := by
    rw [tokens_behind_iterate, List.drop_eq_nil_iff]
    exact hk
  rw [Function.iterate_succ_apply']
  by_contra h
  rw [tokens_eq_cons fun hbody => h (behind_eq_nil hbody)] at hnone
  cases hnone

/-! ## What is left -/

/-- Delimiters at the front do not change the tokens. -/
theorem tokens_append_of_delim {skip : List α} (hskip : ∀ a ∈ skip, p a = true) (s : List α) :
    tokens p (skip ++ s) = tokens p s := by
  induction skip with
  | nil => rfl
  | cons a skip ih =>
      rw [List.cons_append, tokens_cons_delim (hskip a List.mem_cons_self)]
      exact ih fun b hb => hskip b (List.mem_cons_of_mem a hb)

/-- The delimiters, the token and what is behind it, put together again. -/
theorem split_token (p : α → Bool) (s : List α) : ∃ skip, (∀ a ∈ skip, p a = true) ∧
    (s = skip ++ word p (body p s) ∧ behind p s = [] ∨
      ∃ a, p a = true ∧ s = skip ++ (word p (body p s) ++ a :: behind p s)) := by
  refine ⟨s.takeWhile p, fun a ha => List.mem_takeWhile_imp ha, ?_⟩
  have hskip : s.takeWhile p ++ body p s = s := List.takeWhile_append_dropWhile
  have hword := word_append p s
  unfold behind
  cases hrest : (body p s).dropWhile fun a => !p a with
  | nil =>
      rw [hrest, List.append_nil] at hword
      exact .inl ⟨by rw [hword, hskip], rfl⟩
  | cons a t =>
      rw [hrest] at hword
      refine .inr ⟨a, by simpa using head_dropWhile hrest, ?_⟩
      rw [List.tail_cons, hword, hskip]

/-- A text that ends in a word does not end in a delimiter. -/
theorem last_append_word (hw : ∀ a ∈ w, p a = false) (hne : w ≠ []) (s : List α) :
    ∃ a, (s ++ w).getLast? = some a ∧ p a = false := by
  refine ⟨w.getLast hne, ?_, hw _ (List.getLast_mem hne)⟩
  rw [List.getLast?_append, List.getLast?_eq_some_getLast hne, Option.some_or]

/-- What is left after some tokens follows the delimiter that ended the last of them. -/
theorem endsToken_behind {k : Nat} (hk : k < (tokens p s).length) :
    ∃ front, EndsToken p (k + 1) s front ((behind p)^[k + 1] s) := by
  induction k generalizing s with
  | zero =>
      have hbody : body p s ≠ [] := fun h => by simp [tokens_eq_nil h] at hk
      have hw : ∀ a ∈ word p (body p s), p a = false := fun a ha => of_mem_word ha
      obtain ⟨skip, hskip, hs⟩ := split_token p s
      refine ⟨skip ++ word p (body p s), ?_, last_append_word hw (word_ne_nil hbody) _, ?_⟩
      · rw [tokens_append_of_delim hskip, tokens_word hw (word_ne_nil hbody),
          tokens_eq_cons hbody]
        rfl
      · rcases hs with ⟨hs, hnil⟩ | ⟨a, ha, hs⟩
        · exact .inl ⟨hs, hnil⟩
        · exact .inr ⟨a, ha, by rw [List.append_assoc]; exact hs⟩
  | succ k ih =>
      have hbody : body p s ≠ [] := fun h => by simp [tokens_eq_nil h] at hk
      have hw : ∀ a ∈ word p (body p s), p a = false := fun a ha => of_mem_word ha
      have htokens := tokens_eq_cons hbody
      rw [htokens, List.length_cons] at hk
      obtain ⟨front, hread, hlast, hrest⟩ := ih (Nat.lt_of_succ_lt_succ hk)
      obtain ⟨skip, hskip, ⟨-, hnil⟩ | ⟨a, ha, hs⟩⟩ := split_token p s
      · rw [hnil] at hk
        simp at hk
      · refine ⟨skip ++ (word p (body p s) ++ a :: front), ?_, ?_, ?_⟩
        · rw [tokens_append_of_delim hskip, tokens_word_append hw (word_ne_nil hbody) ha, hread,
            htokens]
          rfl
        · obtain ⟨b, hb, hpb⟩ := hlast
          exact ⟨b, by simp [List.getLast?_append, List.getLast?_cons, hb], hpb⟩
        · rw [Function.iterate_succ_apply]
          rcases hrest with ⟨hfront, hnone⟩ | ⟨b, hb, hfront⟩
          · exact .inl ⟨by rw [← hfront]; exact hs, hnone⟩
          · refine .inr ⟨b, hb, ?_⟩
            rw [List.append_assoc, List.append_assoc, List.cons_append, ← hfront]
            exact hs

end

end Tokens
