/-
  Readability — the text of an s-expression determines it.

  * `delimits`, `Sexp.Wordy`: the characters that end an atom, and the s-expressions whose atoms have
    none of them;
  * `Sexp.writeOnto_injective`: in front of what does not continue an atom, a text is that of one
    s-expression only;
  * `Sexp.text_injective`: so an s-expression is determined by its text.
-/
import Scriptling.Proofs.Lexemes
import Scriptling.Sexp

namespace Scriptling

/-- The characters that end an atom. -/
def delimits (c : Char) : Bool := c == ' ' || c == '(' || c == ')'

/-- A text that can stand as an atom. -/
def IsAtom (text : String) : Prop := text ≠ "" ∧ ∀ c ∈ text.toList, delimits c = false

-- The instance that is found by itself may go through all characters there are.
instance (text : String) : Decidable (IsAtom text) :=
  @instDecidableAnd _ _ inferInstance (List.decidableBAll _ _)

theorem IsAtom.exists_cons {text : String} (h : IsAtom text) :
    ∃ c cs, text.toList = c :: cs ∧ delimits c = false := by
  obtain ⟨c, cs, hc⟩ := List.exists_cons_of_ne_nil (mt String.toList_eq_nil_iff.1 h.1)
  exact ⟨c, cs, hc, h.2 c (hc ▸ .head cs)⟩

/-- What follows does not continue an atom. -/
def EndsAtom (r : List Char) : Prop := ∀ c ∈ r.head?, delimits c = true

namespace Sexp

mutual

/-- All atoms can stand as such. -/
@[simp]
def Wordy : Sexp → Prop
  | atom text => IsAtom text
  | list items => WordyAll items

@[simp]
def WordyAll : List Sexp → Prop
  | [] => True
  | x :: xs => x.Wordy ∧ WordyAll xs

end

/-- What is written starts with a character of its own. -/
theorem Wordy.writeOnto_head {x : Sexp} (h : x.Wordy) (r : List Char) :
    ∃ c cs, x.writeOnto r = c :: cs ∧ c ≠ ')' := by
  cases x with
  | atom text =>
    obtain ⟨c, cs, hc, hword⟩ := IsAtom.exists_cons h
    refine ⟨c, cs ++ r, by rw [writeOnto, hc, List.cons_append], ?_⟩
    rintro rfl
    cases hword
  | list items => cases items <;> exact ⟨'(', _, rfl, by decide⟩

theorem endsAtom_writeRest (xs : List Sexp) (r : List Char) : EndsAtom (writeRest xs r) := by
  cases xs with
  | nil => rintro c ⟨⟩; rfl
  | cons x xs => rintro c ⟨⟩; rfl

/-- An atom is the text up to the character that ends it. -/
theorem atom_eq {text text' : String} {r r' : List Char} (h : IsAtom text) (h' : IsAtom text')
    (hr : EndsAtom r) (hr' : EndsAtom r') (he : text.toList ++ r = text'.toList ++ r') :
    text = text' ∧ r = r' := by
  have word {text : String} (h : IsAtom text) : ∀ c ∈ text.toList, (!delimits c) = true :=
    fun c hc => by rw [h.2 c hc]; rfl
  have stop {r : List Char} (hr : EndsAtom r) : ∀ c ∈ r.head?, (!delimits c) = false :=
    fun c hc => by rw [hr c hc]; rfl
  have front := congrArg (List.takeWhile (!delimits ·)) he
  have back := congrArg (List.dropWhile (!delimits ·)) he
  rw [takeWhile_append_stop (word h) (stop hr), takeWhile_append_stop (word h') (stop hr')] at front
  rw [dropWhile_append_stop (word h) (stop hr), dropWhile_append_stop (word h') (stop hr')] at back
  exact ⟨String.toList_inj.1 front, back⟩

/-- An atom does not start as a list does. -/
theorem atom_ne_list {text : String} {r cs : List Char} (h : IsAtom text) :
    text.toList ++ r ≠ '(' :: cs := by
  obtain ⟨c, ds, hc, hword⟩ := h.exists_cons
  rw [hc, List.cons_append]
  rintro ⟨⟩
  cases hword

mutual

/-- **A text is that of one s-expression only**, in front of what does not continue an atom. -/
theorem writeOnto_injective : ∀ {x y : Sexp} {r r' : List Char}, x.Wordy → y.Wordy → EndsAtom r →
    EndsAtom r' → x.writeOnto r = y.writeOnto r' → x = y ∧ r = r'
  | atom _, atom _, _, _, hx, hy, hr, hr', h => by
    obtain ⟨rfl, rfl⟩ := atom_eq hx hy hr hr' h
    exact ⟨rfl, rfl⟩
  | atom _, list [], _, _, hx, _, _, _, h => absurd h (atom_ne_list hx)
  | atom _, list (_ :: _), _, _, hx, _, _, _, h => absurd h (atom_ne_list hx)
  | list [], atom _, _, _, _, hy, _, _, h => absurd h.symm (atom_ne_list hy)
  | list (_ :: _), atom _, _, _, _, hy, _, _, h => absurd h.symm (atom_ne_list hy)
  | list [], list [], _, _, _, _, _, _, h => by
    cases h
    exact ⟨rfl, rfl⟩
  | list [], list (y :: ys), _, r', _, hy, _, _, h => by
    obtain ⟨c, cs, hc, hne⟩ := hy.1.writeOnto_head (writeRest ys r')
    rw [writeOnto, writeOnto, hc] at h
    cases h
    exact absurd rfl hne
  | list (x :: xs), list [], r, _, hx, _, _, _, h => by
    obtain ⟨c, cs, hc, hne⟩ := hx.1.writeOnto_head (writeRest xs r)
    rw [writeOnto, writeOnto, hc] at h
    cases h
    exact absurd rfl hne
  | list (x :: xs), list (y :: ys), r, r', hx, hy, hr, hr', h => by
    obtain ⟨rfl, hrest⟩ := writeOnto_injective hx.1 hy.1 (endsAtom_writeRest xs r)
      (endsAtom_writeRest ys r') (List.cons.inj h).2
    obtain ⟨rfl, rfl⟩ := writeRest_injective hx.2 hy.2 hr hr' hrest
    exact ⟨rfl, rfl⟩

theorem writeRest_injective : ∀ {xs ys : List Sexp} {r r' : List Char}, WordyAll xs →
    WordyAll ys → EndsAtom r → EndsAtom r' → writeRest xs r = writeRest ys r' → xs = ys ∧ r = r'
  | [], [], _, _, _, _, _, _, h => ⟨rfl, (List.cons.inj h).2⟩
  | [], _ :: _, _, _, _, _, _, _, h => nomatch h
  | _ :: _, [], _, _, _, _, _, _, h => nomatch h
  | x :: xs, y :: ys, r, r', hx, hy, hr, hr', h => by
    obtain ⟨rfl, hrest⟩ := writeOnto_injective hx.1 hy.1 (endsAtom_writeRest xs r)
      (endsAtom_writeRest ys r') (List.cons.inj h).2
    obtain ⟨rfl, rfl⟩ := writeRest_injective hx.2 hy.2 hr hr' hrest
    exact ⟨rfl, rfl⟩

end

/-- **An s-expression is determined by its text.** -/
theorem text_injective {x y : Sexp} (hx : x.Wordy) (hy : y.Wordy) (h : x.text = y.text) : x = y := by
  have nothing : EndsAtom [] := by rintro c ⟨⟩
  exact (writeOnto_injective hx hy nothing nothing (String.ofList_injective h)).1

end Sexp

end Scriptling
