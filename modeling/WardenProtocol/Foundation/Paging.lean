import Mathlib.Data.List.Basic
import Mathlib.Order.Basic

namespace WardenProtocol.Foundation.Paging
set_option autoImplicit true

/-- The pages of a listing from a key on, each asked for by the key that the one before returned, up
to the page that returns none. -/
inductive Follows (ask : Option K → P → Prop) (nextKey : P → Option K) : Option K → List P → Prop
  | last (hask : ask key page) (hnext : nextKey page = none) : Follows ask nextKey key [page]
  | next (hask : ask key page) (hnext : nextKey page = some key')
      (hpages : Follows ask nextKey (some key') pages) : Follows ask nextKey key (page :: pages)

theorem follows_map_iff {page : Option K → P} {f : P → Q} {nextKey : P → Option K}
    {nextKey' : Q → Option K} {ask : Option K → Q → Prop}
    (hask : ∀ key q, ask key q ↔ q = f (page key)) (hnext : ∀ p, nextKey' (f p) = nextKey p) :
    Follows ask nextKey' key qs ↔
      ∃ ps, Follows (fun key p => p = page key) nextKey key ps ∧ qs = ps.map f := by
  constructor
  · intro h
    induction h with
    | last hq hlast =>
      cases (hask _ _).1 hq
      rw [hnext] at hlast
      exact ⟨_, .last rfl hlast, rfl⟩
    | next hq hkey _ ih =>
      cases (hask _ _).1 hq
      rw [hnext] at hkey
      obtain ⟨ps, hps, rfl⟩ := ih
      exact ⟨_, .next rfl hkey hps, rfl⟩
  · rintro ⟨ps, h, rfl⟩
    induction h with
    | last hp hlast =>
      apply Follows.last ((hask _ _).2 (congrArg f hp))
      rw [hnext]
      exact hlast
    | next hp hkey _ ih =>
      apply Follows.next ((hask _ _).2 (congrArg f hp)) _ ih
      rw [hnext]
      exact hkey

/-- A listing of the entries that are accepted, in pages of a size: `rest` is what is left at a key.
A page visits some of it in order, and shows the accepted entries. It has a key exactly if entries
follow, and then it is full. -/
structure Lists (accept : E → Bool) (entries : List E) (size : Nat) (shown : P → List E)
    (nextKey : P → Option K) (page : Option K → P) (rest : Option K → List E) : Prop where
  start : rest none = entries
  suffix : ∀ key, rest key <:+ entries
  step : ∀ key, ∃ visited following, rest key = visited ++ following ∧
    shown (page key) = visited.filter accept ∧ (shown (page key)).length ≤ size ∧
    (nextKey (page key) = none ↔ following = []) ∧
    (following ≠ [] → (shown (page key)).length = size) ∧
    ∀ key', nextKey (page key) = some key' → rest (some key') = following

section
variable {accept : E → Bool} {shown : P → List E} {nextKey : P → Option K} {page : Option K → P}

theorem Lists.shown_subset (h : Lists accept entries size shown nextKey page rest)
    (key : Option K) : shown (page key) ⊆ entries := by
  intro e he
  obtain ⟨visited, following, hrest, hpage, -⟩ := h.step key
  rw [hpage] at he
  apply (h.suffix key).subset
  rw [hrest]
  exact List.mem_append_left _ (List.mem_filter.1 he).1

theorem Lists.exists_pages (h : Lists accept entries size shown nextKey page rest)
    (hsize : 0 < size) (key : Option K) :
    ∃ pages, Follows (fun key p => p = page key) nextKey key pages := by
  generalize hn : (rest key).length = n
  induction n using Nat.strongRecOn generalizing key with
  | ind n ih =>
    obtain ⟨visited, following, hrest, hpage, -, hnone, hfull, hnext⟩ := h.step key
    cases hkey : nextKey (page key) with
    | none => exact ⟨_, .last rfl hkey⟩
    | some key' =>
      have hfollowing : following ≠ [] := by
        intro hnil
        rw [hnone.2 hnil] at hkey
        cases hkey
      have hle : size ≤ visited.length := by
        rw [← hfull hfollowing, hpage]
        exact List.length_filter_le _ _
      have hlength := congrArg List.length hrest
      rw [List.length_append, hn] at hlength
      obtain ⟨pages, hpages⟩ := ih (rest (some key')).length (by rw [hnext key' hkey]; omega)
        (some key') rfl
      exact ⟨_, .next rfl hkey hpages⟩

theorem Lists.flatMap_pages (h : Lists accept entries size shown nextKey page rest)
    (hpages : Follows (fun key p => p = page key) nextKey key pages) :
    pages.flatMap shown = (rest key).filter accept := by
  induction hpages with
  | @last key p hask hnext =>
    obtain ⟨visited, following, hrest, hpage, -, hnone, -⟩ := h.step key
    subst hask
    rw [hrest, hnone.1 hnext, List.append_nil, List.flatMap_singleton, hpage]
  | @next key p key' pages hask hnext hpages ih =>
    obtain ⟨visited, following, hrest, hpage, -, -, -, hkey⟩ := h.step key
    subst hask
    rw [List.flatMap_cons, ih, hkey key' hnext, hrest, List.filter_append, hpage]

end

theorem filterMap_eq_nil_iff_of_isSome {f : E → Option F} {xs : List E}
    (h : ∀ e ∈ xs, (f e).isSome) : xs.filterMap f = [] ↔ xs = [] := by
  cases xs with
  | nil => exact iff_of_true rfl rfl
  | cons x xs =>
    obtain ⟨y, hy⟩ := Option.isSome_iff_exists.1 (h x List.mem_cons_self)
    rw [List.filterMap_cons_some hy]
    exact iff_of_false (List.cons_ne_nil _ _) (List.cons_ne_nil _ _)

theorem Lists.filterMap {shown : P → List E} {nextKey : P → Option K} {page : Option K → P}
    (h : Lists (fun _ => true) entries size shown nextKey page rest) {f : E → Option F}
    (hf : ∀ e ∈ entries, (f e).isSome) :
    Lists (fun _ => true) (entries.filterMap f) size (fun p => (shown p).filterMap f) nextKey page
      (fun key => (rest key).filterMap f) := by
  have hlength {xs : List E} (hxs : xs ⊆ entries) : (xs.filterMap f).length = xs.length :=
    List.filterMap_length_eq_length.2 fun e he => hf e (hxs he)
  constructor
  · rw [h.start]
  · intro key
    exact (h.suffix key).filterMap f
  · intro key
    obtain ⟨visited, following, hrest, hpage, hle, hnone, hfull, hkey⟩ := h.step key
    have hshown := h.shown_subset key
    have hfollowing : following ⊆ entries := by
      intro e he
      apply (h.suffix key).subset
      rw [hrest]
      exact List.mem_append_right _ he
    have hnil := filterMap_eq_nil_iff_of_isSome fun e he => hf e (hfollowing he)
    rw [List.filter_true] at hpage
    refine ⟨visited.filterMap f, following.filterMap f, ?_, ?_, ?_, ?_, ?_, ?_⟩
    · rw [hrest, List.filterMap_append]
    · rw [List.filter_true, hpage]
    · rw [hlength hshown]
      exact hle
    · rw [hnone, hnil]
    · intro hne
      rw [hlength hshown]
      exact hfull fun hfollowing => hne (hnil.2 hfollowing)
    · intro key' hnext
      rw [hkey key' hnext]

/-- The entries before those of the last page, when every page but the last is full. -/
def beforeLast (size : Nat) (xs : List E) : List E := xs.take ((xs.length - 1) / size * size)

theorem beforeLast_of_le (h : xs.length ≤ size) (hsize : 0 < size) : beforeLast size xs = [] := by
  have hdiv : (xs.length - 1) / size = 0 := Nat.div_eq_of_lt (by omega)
  rw [beforeLast, hdiv, Nat.zero_mul, List.take_zero]

theorem beforeLast_append {xs ys : List E} (h : xs.length = size) (hys : ys ≠ [])
    (hsize : 0 < size) : beforeLast size (xs ++ ys) = xs ++ beforeLast size ys := by
  have hpos := List.length_pos_of_ne_nil hys
  have hdiv : (size + ys.length - 1) / size = (ys.length - 1) / size + 1 := by
    have hsub : size + ys.length - 1 = ys.length - 1 + size := by omega
    rw [hsub, Nat.add_div_right _ hsize]
  rw [beforeLast, beforeLast, List.length_append, h, hdiv, Nat.succ_mul,
    Nat.add_comm ((ys.length - 1) / size * size) size, ← h, List.take_length_add_append]

/-- When pages of all entries are filtered afterwards, a short page is the last one exactly if the
filter keeps what stands before the last page. -/
theorem Lists.short_iff {shown : P → List E} {nextKey : P → Option K} {page : Option K → P}
    (h : Lists (fun _ => true) entries size shown nextKey page rest) (hsize : 0 < size)
    (keep : E → Bool) (hpages : Follows (fun key p => p = page key) nextKey key pages) :
    (∀ p ∈ pages, ((shown p).filter keep).length < size → nextKey p = none) ↔
      ∀ e ∈ beforeLast size (rest key), keep e = true := by
  induction hpages with
  | @last key p hask hnext =>
    obtain ⟨visited, following, hrest, hpage, hle, hnone, -⟩ := h.step key
    subst hask
    rw [List.filter_true] at hpage
    rw [hnone.1 hnext, List.append_nil] at hrest
    rw [hrest, ← hpage, beforeLast_of_le hle hsize]
    apply iff_of_true
    · intro p hp _
      rw [List.mem_singleton.1 hp]
      exact hnext
    · intro e he
      cases he
  | @next key p key' pages hask hnext hpages ih =>
    obtain ⟨visited, following, hrest, hpage, -, hnone, hfull, hkey⟩ := h.step key
    subst hask
    rw [List.filter_true] at hpage
    have hfollowing : following ≠ [] := by
      intro hnil
      rw [hnone.2 hnil] at hnext
      cases hnext
    have hlength := hfull hfollowing
    rw [hkey key' hnext] at ih
    rw [hrest, ← hpage, beforeLast_append hlength hfollowing hsize, List.forall_mem_append,
      List.forall_mem_cons, ih]
    apply and_congr _ Iff.rfl
    rw [← hlength, hnext]
    constructor
    · intro hshort e he
      by_contra hkeep
      have hlt := List.length_filter_lt_length_iff_exists.2 ⟨e, he, hkeep⟩
      cases hshort hlt
    · intro hall hlt
      rw [List.filter_eq_self.2 hall] at hlt
      exact absurd hlt (Nat.lt_irrefl _)

/-- A page of at most so many accepted entries of a list, and what is left of the list. -/
def visit (accept : E → Bool) : List E → Nat → List E × List E
  | [], _ => ([], [])
  | xs, 0 => ([], xs)
  | x :: xs, n + 1 =>
    if accept x then (x :: (visit accept xs n).1, (visit accept xs n).2)
    else visit accept xs (n + 1)

theorem visit_spec (accept : E → Bool) (xs : List E) (n : Nat) :
    ∃ visited, xs = visited ++ (visit accept xs n).2 ∧
      (visit accept xs n).1 = visited.filter accept ∧ (visit accept xs n).1.length ≤ n ∧
      ((visit accept xs n).2 ≠ [] → (visit accept xs n).1.length = n) := by
  induction xs generalizing n with
  | nil => exact ⟨[], rfl, rfl, Nat.zero_le _, fun h => absurd rfl h⟩
  | cons x xs ih =>
    cases n with
    | zero => exact ⟨[], rfl, rfl, Nat.le_refl _, fun _ => rfl⟩
    | succ n =>
      rw [visit]
      by_cases hx : accept x = true
      · obtain ⟨visited, hxs, hshown, hle, hfull⟩ := ih n
        rw [if_pos hx]
        refine ⟨x :: visited, congrArg (x :: ·) hxs, ?_, Nat.succ_le_succ hle, ?_⟩
        · rw [List.filter_cons_of_pos hx, hshown]
        · intro hne
          exact congrArg Nat.succ (hfull hne)
      · obtain ⟨visited, hxs, hshown, hle, hfull⟩ := ih (n + 1)
        rw [if_neg hx]
        refine ⟨x :: visited, congrArg (x :: ·) hxs, ?_, hle, hfull⟩
        rw [List.filter_cons_of_neg hx, hshown]

section
variable (encode : Nat → K) (decode : K → Nat)

/-- The place in a list that a key stands for. -/
def place (key : Option K) : Nat := (key.map decode).getD 0

/-- The page of a list at a key that stands for a place in it. -/
def pageAt (accept : E → Bool) (entries : List E) (size : Nat) (key : Option K) :
    List E × Option K :=
  let (shown, following) := visit accept (entries.drop (place decode key)) size
  (shown, if following.isEmpty then none else some (encode (entries.length - following.length)))

theorem lists_pageAt (hdecode : ∀ n, decode (encode n) = n) (accept : E → Bool) (entries : List E)
    (size : Nat) : Lists accept entries size Prod.fst Prod.snd
      (pageAt encode decode accept entries size) fun key => entries.drop (place decode key) := by
  constructor
  · rfl
  · intro key
    exact List.drop_suffix _ _
  · intro key
    obtain ⟨visited, hxs, hshown, hle, hfull⟩ :=
      visit_spec accept (entries.drop (place decode key)) size
    refine ⟨visited, _, hxs, hshown, hle, ?_, hfull, ?_⟩
    · simp [pageAt]
    · intro key' hkey'
      simp only [pageAt] at hkey'
      split at hkey'
      · cases hkey'
      · cases hkey'
        have hsuffix : (visit accept (entries.drop (place decode key)) size).2 <:+ entries := by
          apply List.IsSuffix.trans _ (List.drop_suffix (place decode key) entries)
          exact ⟨visited, hxs.symm⟩
        simp only [place, Option.map_some, hdecode, Option.getD_some]
        exact (List.suffix_iff_eq_drop.1 hsuffix).symm

end

end WardenProtocol.Foundation.Paging
