import Mathlib.Data.List.Basic
import Mathlib.Data.Int.Order.Basic
import WardenProtocol.Foundation.Fallible

namespace WardenProtocol.Foundation
set_option autoImplicit true

/-- What reads a text from an index on, and says at which index it stops. -/
abbrev Reader (A ε α : Type) := List A → Int → Except ε (α × Int)

namespace Reader
variable {A ε α β σ : Type} {bound : Nat} {r : Reader A ε α} {L : List A → α → Prop}

/-- On texts shorter than the bound, the reader succeeds where a piece of the language starts; it
stops behind the piece. -/
def Recognizes (bound : Nat) (r : Reader A ε α) (L : List A → α → Prop) : Prop :=
  ∀ (s : List A) (k : Nat), k ≤ s.length → s.length < bound → ∀ a j, r s k = .ok (a, j) ↔
    ∃ piece rest, s.drop k = piece ++ rest ∧ L piece a ∧ j = (k + piece.length : Nat)

/-- On texts shorter than the bound, the reader fails with the errors of a class only. -/
def Fails (bound : Nat) (r : Reader A ε α) (E : ε → Prop) : Prop :=
  ∀ (s : List A) (k : Nat), k ≤ s.length → s.length < bound → ∀ e, r s k = .error e → E e

def pure (a : α) : Reader A ε α := fun _ i => .ok (a, i)

def bind (r : Reader A ε α) (f : α → Reader A ε β) : Reader A ε β := fun s i =>
  r s i >>= fun p => f p.1 s p.2

def fail (e : ε) : Reader A ε α := fun _ _ => .error e

/-- The pieces of one language followed by those of another. -/
def Then (L : List A → α → Prop) (M : α → List A → β → Prop) (piece : List A) (b : β) : Prop :=
  ∃ p q a, piece = p ++ q ∧ L p a ∧ M a q b

theorem Recognizes.mono (hr : Recognizes bound r L) (h : bound' ≤ bound) :
    Recognizes bound' r L :=
  fun s k hk hs => hr s k hk (Nat.lt_of_lt_of_le hs h)

theorem Fails.mono (hr : Fails bound r E) (h : bound' ≤ bound) : Fails bound' r E :=
  fun s k hk hs => hr s k hk (Nat.lt_of_lt_of_le hs h)

theorem drop_append_eq {s p q : List A} (h : s.drop k = p ++ q) : s.drop (k + p.length) = q := by
  rw [← List.drop_drop, h, List.drop_left]

theorem length_of_drop {s p q : List A} (hk : k ≤ s.length) (h : s.drop k = p ++ q) :
    k + p.length ≤ s.length := by
  have hlength := congrArg List.length h
  rw [List.length_drop, List.length_append] at hlength
  omega

theorem drop_cons_eq {s t : List A} (h : s.drop k = x :: t) :
    k + 1 ≤ s.length ∧ s.drop (k + 1) = t := by
  constructor
  · have hlength := congrArg List.length h
    rw [List.length_drop, List.length_cons] at hlength
    omega
  · rw [← List.drop_drop, h]
    rfl

theorem recognizes_pure (a : α) :
    Recognizes bound (pure a : Reader A ε α) fun piece b => piece = [] ∧ b = a := by
  intro s k hk hs b j
  constructor
  · intro h
    cases h
    exact ⟨[], s.drop k, rfl, ⟨rfl, rfl⟩, rfl⟩
  · rintro ⟨piece, rest, -, ⟨rfl, rfl⟩, rfl⟩
    rfl

theorem recognizes_fail (e : ε) :
    Recognizes bound (fail e : Reader A ε α) fun _ _ => False := by
  intro s k hk hs b j
  constructor
  · intro h
    cases h
  · rintro ⟨piece, rest, -, h, -⟩
    cases h

theorem Recognizes.bind {f : α → Reader A ε β} {M : α → List A → β → Prop}
    (hr : Recognizes bound r L) (hf : ∀ a, Recognizes bound (f a) (M a)) :
    Recognizes bound (r.bind f) (Then L M) := by
  intro s k hk hs b j
  rw [Reader.bind, bind_eq_ok]
  constructor
  · rintro ⟨⟨a, i⟩, ha, hb⟩
    obtain ⟨p, rest, hdrop, hp, rfl⟩ := (hr s k hk hs a i).1 ha
    obtain ⟨q, rest', hdrop', hq, rfl⟩ := (hf a s _ (length_of_drop hk hdrop) hs b j).1 hb
    rw [drop_append_eq hdrop] at hdrop'
    refine ⟨p ++ q, rest', ?_, ⟨p, q, a, rfl, hp, hq⟩, ?_⟩
    · rw [hdrop, hdrop', List.append_assoc]
    · rw [List.length_append, Nat.add_assoc]
  · rintro ⟨piece, rest, hdrop, ⟨p, q, a, rfl, hp, hq⟩, rfl⟩
    rw [List.append_assoc] at hdrop
    refine ⟨(a, (k + p.length : Nat)), (hr s k hk hs a _).2 ⟨p, q ++ rest, hdrop, hp, rfl⟩, ?_⟩
    apply (hf a s _ (length_of_drop hk hdrop) hs b _).2
    refine ⟨q, rest, drop_append_eq hdrop, hq, ?_⟩
    rw [List.length_append, Nat.add_assoc]

theorem Recognizes.congr (hr : Recognizes bound r L) (h : ∀ piece a, L piece a ↔ M piece a) :
    Recognizes bound r M := by
  obtain rfl : L = M := funext fun piece => funext fun a => propext (h piece a)
  exact hr

theorem Recognizes.map (hr : Recognizes bound r L) (g : α → β) :
    Recognizes bound (r.bind fun a => pure (g a)) fun piece b => ∃ a, L piece a ∧ b = g a := by
  apply (hr.bind fun a => recognizes_pure (g a)).congr
  intro piece b
  constructor
  · rintro ⟨p, q, a, rfl, hp, rfl, rfl⟩
    exact ⟨a, by rwa [List.append_nil], rfl⟩
  · rintro ⟨a, ha, rfl⟩
    exact ⟨piece, [], a, (List.append_nil _).symm, ha, rfl, rfl⟩

theorem Recognizes.functional (hr : Recognizes bound r L) (hs : (p ++ q).length < bound)
    (hp : L p a) (hp' : L p' a') (h : p ++ q = p' ++ q') : p = p' ∧ q = q' ∧ a = a' := by
  have h₁ := (hr (p ++ q) 0 (Nat.zero_le _) hs a _).2 ⟨p, q, rfl, hp, rfl⟩
  have h₂ := (hr (p ++ q) 0 (Nat.zero_le _) hs a' _).2 ⟨p', q', h, hp', rfl⟩
  rw [h₁] at h₂
  simp only [Except.ok.injEq, Prod.mk.injEq, Nat.zero_add, Int.natCast_inj] at h₂
  obtain ⟨rfl, rfl⟩ := List.append_inj h h₂.2
  exact ⟨rfl, rfl, h₂.1⟩

/-- The reader takes the whole text. -/
def Whole (r : Reader A ε α) (piece : List A) (a : α) : Prop :=
  r piece 0 = .ok (a, (piece.length : Nat))

theorem Recognizes.whole_iff (hr : Recognizes bound r L) (h : piece.length < bound) :
    Whole r piece a ↔ L piece a := by
  have hiff := hr piece 0 (Nat.zero_le _) h a (piece.length : Nat)
  rw [Whole]
  constructor
  · intro hread
    obtain ⟨p, rest, hdrop, hp, hlength⟩ := hiff.1 hread
    rw [List.drop_zero] at hdrop
    obtain rfl : rest = [] := by
      have hsum := congrArg List.length hdrop
      rw [List.length_append] at hsum
      apply List.eq_nil_of_length_eq_zero
      omega
    rwa [hdrop, List.append_nil]
  · intro hp
    exact hiff.2 ⟨piece, [], by simp, hp, by simp⟩

theorem Recognizes.whole (hr : Recognizes bound r L) : Recognizes bound r (Whole r) := by
  intro s k hk hs a j
  rw [hr s k hk hs a j]
  constructor
  · rintro ⟨piece, rest, hdrop, hp, rfl⟩
    have hle := length_of_drop hk hdrop
    exact ⟨piece, rest, hdrop, (hr.whole_iff (by omega)).2 hp, rfl⟩
  · rintro ⟨piece, rest, hdrop, hp, rfl⟩
    have hle := length_of_drop hk hdrop
    exact ⟨piece, rest, hdrop, (hr.whole_iff (by omega)).1 hp, rfl⟩

theorem fails_pure (a : α) : Fails bound (pure a : Reader A ε α) E := by
  intro s k hk hs e h
  cases h

theorem fails_fail (h : E e) : Fails bound (fail e : Reader A ε α) E := by
  intro s k hk hs e' he
  cases he
  exact h

theorem Fails.bind {f : α → Reader A ε β} (hr : Recognizes bound r L) (hfail : Fails bound r E)
    (hf : ∀ a, Fails bound (f a) E) : Fails bound (r.bind f) E := by
  intro s k hk hs e h
  cases hread : r s k with
  | error e' =>
    rw [Reader.bind, hread] at h
    cases h
    exact hfail s k hk hs e hread
  | ok p =>
    obtain ⟨a, j⟩ := p
    rw [Reader.bind, hread] at h
    obtain ⟨piece, rest, hdrop, -, rfl⟩ := (hr s k hk hs a j).1 hread
    exact hf a s _ (length_of_drop hk hdrop) hs e h

/-- Pieces that lead from a state to a state, one after the other. -/
inductive Chain (C : σ → List A → σ → Prop) : σ → List A → σ → Prop
  | nil : Chain C m [] m
  | cons : C m piece m₁ → Chain C m₁ rest m₂ → Chain C m (piece ++ rest) m₂

theorem Chain.single {C : σ → List A → σ → Prop} (h : C m piece m₁) : Chain C m piece m₁ := by
  rw [← List.append_nil piece]
  exact .cons h .nil

theorem Chain.append {C : σ → List A → σ → Prop} (h : Chain C m s m₁) (h' : Chain C m₁ t m₂) :
    Chain C m (s ++ t) m₂ := by
  induction h with
  | nil => exact h'
  | cons hpiece _ ih =>
    rw [List.append_assoc]
    exact .cons hpiece (ih h')

/-- Two languages with the same pieces up to a length have the same chains up to it. -/
theorem Chain.congr {C D : σ → List A → σ → Prop} (h : ∀ m piece m', piece.length < bound →
    (C m piece m' ↔ D m piece m')) (hs : s.length < bound) : Chain C m s m' ↔ Chain D m s m' := by
  constructor
  · intro hchain
    induction hchain with
    | nil => exact .nil
    | cons hp _ ih =>
      rw [List.length_append] at hs
      exact .cons ((h _ _ _ (by omega)).1 hp) (ih (by omega))
  · intro hchain
    induction hchain with
    | nil => exact .nil
    | cons hp _ ih =>
      rw [List.length_append] at hs
      exact .cons ((h _ _ _ (by omega)).2 hp) (ih (by omega))

/-- Read pieces until the text ends; the rounds are counted, and the last one is an error. -/
def readAll (body : σ → Reader A ε σ) (rounds premature : ε) (s : List A) :
    Nat → σ → Int → Except ε σ
  | 0, _, _ => .error rounds
  | n + 1, m, i =>
    if i < s.length then body m s i >>= fun p => readAll body rounds premature s n p.1 p.2
    else if i > s.length then .error premature
    else .ok m

section
variable {body : σ → Reader A ε σ} {C : σ → List A → σ → Prop}
  (hbody : ∀ m, Recognizes bound (body m) (C m)) (hpiece : ∀ m m', ¬ C m [] m')
include hbody hpiece

theorem readAll_eq_ok_iff {rounds premature : ε} {s : List A} (hs : s.length < bound)
    (hk : k ≤ s.length) (hn : s.length - k < n) :
    readAll body rounds premature s n m k = .ok m' ↔ Chain C m (s.drop k) m' := by
  induction n generalizing m k with
  | zero => omega
  | succ n ih =>
    rw [readAll]
    obtain hlt | rfl := Nat.lt_or_eq_of_le hk
    · rw [if_pos (by omega), bind_eq_ok]
      constructor
      · rintro ⟨⟨m₁, j⟩, hread, hrest⟩
        obtain ⟨piece, rest, hdrop, hp, rfl⟩ := (hbody m s k hk hs m₁ j).1 hread
        have hle := length_of_drop hk hdrop
        have hpos : piece ≠ [] := by
          rintro rfl
          exact hpiece _ _ hp
        have hlength := List.length_pos_of_ne_nil hpos
        rw [hdrop]
        apply Chain.cons hp
        rw [← drop_append_eq hdrop]
        exact (ih hle (by omega)).1 hrest
      · intro hchain
        generalize htext : s.drop k = text at hchain
        cases hchain with
        | nil =>
          have hlength := congrArg List.length htext
          rw [List.length_drop, List.length_nil] at hlength
          omega
        | @cons _ piece m₁ rest _ hp hchain =>
          have hle := length_of_drop hk htext
          have hpos : piece ≠ [] := by
            rintro rfl
            exact hpiece _ _ hp
          have hlength := List.length_pos_of_ne_nil hpos
          refine ⟨(m₁, (k + piece.length : Nat)),
            (hbody m s k hk hs m₁ _).2 ⟨piece, rest, htext, hp, rfl⟩, ?_⟩
          apply (ih hle (by omega)).2
          rwa [drop_append_eq htext]
    · rw [if_neg (by omega), if_neg (by omega), List.drop_length]
      constructor
      · intro h
        cases h
        exact .nil
      · intro hchain
        generalize htext : ([] : List A) = text at hchain
        cases hchain with
        | nil => rfl
        | cons hp _ =>
          obtain ⟨rfl, -⟩ := List.append_eq_nil_iff.1 htext.symm
          exact absurd hp (hpiece _ _)

theorem readAll_fails {rounds premature : ε} {s : List A} (hs : s.length < bound)
    (hfails : ∀ m, Fails bound (body m) E) (hpremature : E premature) (hk : k ≤ s.length)
    (hn : s.length - k < n) (h : readAll body rounds premature s n m k = .error e) : E e := by
  induction n generalizing m k with
  | zero => omega
  | succ n ih =>
    rw [readAll] at h
    split at h
    · cases hread : body m s k with
      | error e' =>
        rw [hread] at h
        cases h
        exact hfails m s k hk hs e hread
      | ok p =>
        obtain ⟨m₁, j⟩ := p
        rw [hread] at h
        obtain ⟨piece, rest, hdrop, hp, rfl⟩ := (hbody m s k hk hs m₁ j).1 hread
        have hpos : piece ≠ [] := by
          rintro rfl
          exact hpiece _ _ hp
        have hlength := List.length_pos_of_ne_nil hpos
        exact ih (length_of_drop hk hdrop) (by have := length_of_drop hk hdrop; omega) h
    · split at h
      · cases h
        exact hpremature
      · cases h

/-- A text that starts with whole pieces is read on from the state they lead to. -/
theorem Chain.append_iff (h : Chain C m s m₁) (hs : (s ++ t).length < bound) :
    Chain C m (s ++ t) m₂ ↔ Chain C m₁ t m₂ := by
  constructor
  · intro h'
    induction h with
    | nil => exact h'
    | @cons m piece m₁ rest m₂' hp _ ih =>
      rw [List.append_assoc] at h' hs
      generalize htext : piece ++ (rest ++ t) = text at h'
      cases h' with
      | nil =>
        obtain ⟨rfl, -⟩ := List.append_eq_nil_iff.1 htext
        exact absurd hp (hpiece _ _)
      | cons hp' hrest' =>
        obtain ⟨rfl, rfl, rfl⟩ := (hbody m).functional hs hp hp' htext
        apply ih _ hrest'
        rw [List.length_append] at hs
        omega
  · exact h.append

end

/-- Where the pieces have led to a state in which the next one fails, all of it fails. -/
theorem readAll_error {body : σ → Reader A ε σ} {C : σ → List A → σ → Prop}
    {rounds premature : ε} {s : List A} (hbody : ∀ m, Recognizes bound (body m) (C m))
    (hpiece : ∀ m m', ¬ C m [] m') (hs : s.length < bound) (hk : k ≤ s.length)
    (hchain : Chain C m p m₁) (hdrop : s.drop k = p ++ x :: rest)
    (he : body m₁ s (k + p.length : Nat) = .error e) (hn : s.length - k < n) :
    readAll body rounds premature s n m k = .error e := by
  induction hchain generalizing n k with
  | nil =>
    cases n with
    | zero => omega
    | succ n =>
      have hlt := (drop_cons_eq hdrop).1
      rw [readAll, if_pos (by omega)]
      have hbody : body _ s k = .error e := he
      rw [hbody]
      rfl
  | @cons m piece m₁ p _ hp _ ih =>
    cases n with
    | zero => omega
    | succ n =>
      rw [List.append_assoc] at hdrop
      have hle := length_of_drop hk hdrop
      have hpos : piece ≠ [] := by
        rintro rfl
        exact hpiece _ _ hp
      have hlength := List.length_pos_of_ne_nil hpos
      rw [List.length_append, ← Nat.add_assoc] at he
      have hdrop' := drop_append_eq hdrop
      have hlt : k < s.length := by
        have hsum := congrArg List.length hdrop
        rw [List.length_drop, List.length_append] at hsum
        omega
      rw [readAll, if_pos (by omega), (hbody m s k hk hs m₁ _).2 ⟨piece, _, hdrop, hp, rfl⟩]
      exact ih hle hdrop' he (by omega)

/-- The reader reads the piece, wherever it stands. -/
def Reads (r : Reader A ε α) (piece : List A) (a : α) : Prop :=
  ∀ (s : List A) (k : Nat) (rest : List A), k ≤ s.length → s.drop k = piece ++ rest →
    r s k = .ok (a, (k + piece.length : Nat))

theorem reads_pure (a : α) : Reads (pure a : Reader A ε α) [] a := fun _ _ _ _ _ => rfl

theorem Reads.bind {f : α → Reader A ε β} (hr : Reads r p a) (hf : Reads (f a) q b) :
    Reads (r.bind f) (p ++ q) b := by
  intro s k rest hk hdrop
  rw [List.append_assoc] at hdrop
  rw [Reader.bind, hr s k _ hk hdrop]
  have hnext := hf s _ rest (length_of_drop hk hdrop) (drop_append_eq hdrop)
  rw [List.length_append, ← Nat.add_assoc]
  exact hnext

theorem Reads.map (hr : Reads r p a) (g : α → β) :
    Reads (r.bind fun a => Reader.pure (g a)) p (g a) := by
  have h := hr.bind (f := fun a => Reader.pure (g a)) (reads_pure (g a))
  rwa [List.append_nil] at h

theorem Recognizes.reads (hr : ∀ bound, Recognizes bound r L) (hp : L p a) : Reads r p a :=
  fun s k rest hk hdrop =>
    (hr (s.length + 1) s k hk (Nat.lt_succ_self _) a _).2 ⟨p, rest, hdrop, hp, rfl⟩

end Reader

end WardenProtocol.Foundation
