import Mathlib.Data.List.TakeWhile

-- The words of a list, which are separated by the elements with a property.

namespace Words

variable {α : Type} {p q : α → Bool} {c : α} {s t w r : List α}

def words (p : α → Bool) (s : List α) : List (List α) :=
  (s.splitOnP p).filter (· ≠ [])

def Ends (p : α → Bool) (r : List α) : Prop :=
  ∀ c ∈ r.head?, p c

theorem head_dropWhile (q : α → Bool) (s : List α) : ∀ c ∈ (s.dropWhile q).head?, q c = false := by
  intro c hc
  have := List.head?_dropWhile_not q s
  rwa [hc] at this

@[simp]
theorem words_nil (p : α → Bool) : words p [] = [] := by simp [words]

theorem words_cons (h : p c) (s : List α) : words p (c :: s) = words p s := by
  rw [words, List.splitOnP_cons_eq_if_modifyHead, if_pos h, List.filter_cons_of_neg (by simp), words]

theorem words_append_word (hn : w ≠ []) (hw : ∀ c ∈ w, p c = false) (hr : Ends p r) :
    words p (w ++ r) = w :: words p r := by
  cases r
  case nil      => simp [words, List.splitOnP_eq_singleton hw, hn]
  case cons c r =>
    have hc : p c := hr c rfl
    rw [words_cons hc, words, List.splitOnP_append_cons_of_forall_mem hw c hc, List.filter_cons_of_pos (by simpa),
      words]

-- Lists are made of separators and of words.
@[elab_as_elim]
theorem words_induct (p : α → Bool) {motive : List α → Prop} (nil : motive [])
    (sep : ∀ c s, p c → motive s → motive (c :: s))
    (word : ∀ w r, w ≠ [] → (∀ c ∈ w, p c = false) → Ends p r → motive r → motive (w ++ r))
    (s : List α) : motive s := by
  match s with
  | []     => exact nil
  | c :: s =>
    cases hc : p c
    case true  => exact sep c s hc (words_induct p nil sep word s)
    case false =>
      have hs : (c :: s.takeWhile (!p ·)) ++ s.dropWhile (!p ·) = c :: s := by simp
      have hw : ∀ a ∈ c :: s.takeWhile (!p ·), p a = false := by
        refine List.forall_mem_cons.mpr ⟨hc, fun a ha => ?_⟩
        simpa using List.mem_takeWhile_imp ha
      have hr : Ends p (s.dropWhile (!p ·)) := by
        intro a ha
        simpa using head_dropWhile (!p ·) s a ha
      have hl : (s.dropWhile (!p ·)).length ≤ s.length := (List.dropWhile_sublist _).length_le
      exact hs ▸ word _ _ (by simp) hw hr (words_induct p nil sep word _)
termination_by s.length

theorem words_append (h : ∀ c ∈ t, p c) (s : List α) : words p (t ++ s) = words p s := by
  induction t
  case nil         => rfl
  case cons c t hi =>
    have ⟨hc, ht⟩ := List.forall_mem_cons.mp h
    rw [List.cons_append, words_cons hc, hi ht]

theorem head_words {ws : List (List α)} (h : words p s = w :: ws) : (s.dropWhile p).takeWhile (!p ·) = w := by
  have hs : words p s = words p (s.dropWhile p) := by
    have hb : ∀ c ∈ s.takeWhile p, p c := fun c hc => List.mem_takeWhile_imp hc
    have := words_append hb (s.dropWhile p)
    rwa [List.takeWhile_append_dropWhile] at this
  have hd := head_dropWhile p s
  rw [hs] at h
  cases hr : s.dropWhile p
  case nil      => rw [hr, words_nil] at h; cases h
  case cons c r =>
    rw [hr] at h hd
    have hc : p c = false := hd c rfl
    have hn : (c :: r).takeWhile (!p ·) ≠ [] := by simp [hc]
    have hw : ∀ a ∈ (c :: r).takeWhile (!p ·), p a = false := fun a ha => by simpa using List.mem_takeWhile_imp ha
    have he : Ends p ((c :: r).dropWhile (!p ·)) := fun a ha => by simpa using head_dropWhile (!p ·) (c :: r) a ha
    have := words_append_word hn hw he
    rw [List.takeWhile_append_dropWhile, h] at this
    exact (List.cons.inj this).1.symm

theorem words_eq_nil_iff : words p s = [] ↔ ∀ c ∈ s, p c := by
  induction s using words_induct p
  case nil               => simp
  case sep c s hc hi     => rw [words_cons hc, hi, List.forall_mem_cons, and_iff_right hc]
  case word w r hn hw hr hi =>
    obtain ⟨a, w, rfl⟩ := List.exists_cons_of_ne_nil hn
    rw [words_append_word hn hw hr]
    refine iff_of_false (by simp) fun h => ?_
    simpa [hw a List.mem_cons_self] using h a List.mem_cons_self

theorem headD_words (p : α → Bool) (s : List α) : (words p s).headD [] = (s.dropWhile p).takeWhile (!p ·) := by
  cases h : words p s
  case nil       => rw [List.dropWhile_eq_nil_iff.mpr (words_eq_nil_iff.mp h)]; rfl
  case cons w ws => exact (head_words h).symm

theorem mem_words (h : t ∈ words p s) : t ≠ [] ∧ (∀ c ∈ t, p c = false) ∧ t <:+: s := by
  induction s using words_induct p
  case nil           => simp at h
  case sep c s hc hi =>
    rw [words_cons hc] at h
    have ⟨hn, ht, hs⟩ := hi h
    exact ⟨hn, ht, hs.trans (List.suffix_cons c s).isInfix⟩
  case word w r hn hw hr hi =>
    rw [words_append_word hn hw hr] at h
    obtain rfl | h := List.mem_cons.mp h
    case inl => exact ⟨hn, hw, (List.prefix_append ..).isInfix⟩
    case inr =>
      have ⟨hn, ht, hs⟩ := hi h
      exact ⟨hn, ht, hs.trans (List.suffix_append ..).isInfix⟩

theorem eq_append_of_words (h : words p s = [w]) (hs : ∀ c ∈ s.head?, p c = false) :
    ∃ t, s = w ++ t ∧ ∀ c ∈ t, p c := by
  induction s using words_induct p
  case nil           => simp at h
  case sep c s hc hi => simpa [hc] using hs c rfl
  case word v r hn hv hr hi =>
    rw [words_append_word hn hv hr] at h
    obtain ⟨rfl, hr⟩ := List.cons.inj h
    exact ⟨r, rfl, words_eq_nil_iff.mp hr⟩

theorem takeWhile_iff (hq : ∀ c, p c → q c) (s : List α) :
    (∀ c ∈ s.takeWhile q, p c) ↔ ∀ w ∈ (words p s).head?, ∀ c ∈ w.head?, q c = false := by
  induction s using words_induct p
  case nil               => simp
  case sep c s hc hi     =>
    rw [words_cons hc, ← hi, List.takeWhile_cons_of_pos (hq c hc), List.forall_mem_cons, and_iff_right hc]
  case word w r hn hw hr hi =>
    obtain ⟨a, w, rfl⟩ := List.exists_cons_of_ne_nil hn
    have ha := hw a List.mem_cons_self
    rw [words_append_word hn hw hr, List.cons_append, List.takeWhile_cons]
    split
    case isTrue h  => exact iff_of_false (fun hs => by simpa [ha] using hs a List.mem_cons_self) (by simp [h])
    case isFalse h => simpa using h

-- The words that are left when the elements with a property are dropped at the beginning.
def dropWords (q : α → Bool) : List (List α) → List (List α)
  | []      => []
  | w :: ws => if w.all q then dropWords q ws else w.dropWhile q :: ws

theorem tail_dropWords_suffix (q : α → Bool) (ws : List (List α)) : (dropWords q ws).tail <:+ ws := by
  induction ws
  case nil          => exact List.suffix_refl _
  case cons w ws hi =>
    rw [dropWords]
    split
    case isTrue  => exact hi.trans (List.suffix_cons w ws)
    case isFalse => exact List.suffix_cons w ws

theorem words_dropWhile (hq : ∀ c, p c → q c) (s : List α) : words p (s.dropWhile q) = dropWords q (words p s) := by
  induction s using words_induct p
  case nil           => rfl
  case sep c s hc hi => rw [List.dropWhile_cons_of_pos (hq c hc), words_cons hc, hi]
  case word w r hn hw hr hi =>
    rw [words_append_word hn hw hr, dropWords]
    split
    case isTrue h  => rw [List.dropWhile_append_of_pos (List.all_eq_true.mp h), hi]
    case isFalse h =>
      have hd : w.dropWhile q ≠ [] := fun hd => h (List.all_eq_true.mpr (List.dropWhile_eq_nil_iff.mp hd))
      have hs : (w ++ r).dropWhile q = w.dropWhile q ++ r := by
        rw [List.dropWhile_append, if_neg (by simpa using hd)]
      rw [hs, words_append_word hd (fun c hc => hw c ((List.dropWhile_sublist q).subset hc)) hr]

end Words
