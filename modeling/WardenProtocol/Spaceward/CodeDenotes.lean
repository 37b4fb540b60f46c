import WardenProtocol.Spaceward.CodeParsed

namespace WardenProtocol.Spaceward
open Shield Foundation Bracketed
set_option autoImplicit true

theorem toUpperCase_of_lt (tables : Tables) (h : ∀ u ∈ w, u < 96) : toUpperCase tables w = w := by
  have hle {u : UInt16} (hu : u < 96) : u.toNat < 96 := hu
  rw [toUpperCase, if_pos]
  · apply (List.map_congr_left _).trans (List.map_id _)
    intro u hu
    have hu := hle (h u hu)
    rw [upperAscii, if_neg]
    · rfl
    · intro h
      rw [Bool.and_eq_true, decide_eq_true_eq, UInt16.le_iff_toNat_le] at h
      have hlow : 97 ≤ u.toNat := h.1
      omega
  · apply List.all_eq_true.2
    intro u hu
    exact decide_eq_true (UInt16.lt_iff_toNat_lt.2 (Nat.lt_trans (hle (h u hu)) (by decide)))

/-- A word that upper case leaves as it is, and that does not begin with an R. -/
structure IsCapital (tables : Tables) (w : JsString) : Prop where
  upper : toUpperCase tables w = w
  head : w.head? ≠ some 82

theorem IsCapital.ne_refName (h : IsCapital tables w) (m : Nat) : w ≠ refName m := by
  rintro rfl
  exact h.head rfl

theorem IsCapital.not_prototype (h : IsCapital tables w) : w ∉ prototypeNames := by
  have hall : prototypeNames.all (fun w => w.all (· < 128) && w.map upperAscii ≠ w) = true := by
    decide
  intro hw
  have hlower := List.all_eq_true.1 hall w hw
  rw [Bool.and_eq_true] at hlower
  have hupper := h.upper
  rw [toUpperCase, if_pos hlower.1] at hupper
  exact of_decide_eq_true hlower.2 hupper

theorem digits_below (n : Numeral) : ∀ u ∈ widen n.text, 48 ≤ u ∧ u ≤ 57 ∧ isDecimal u = true := by
  intro u hu
  obtain ⟨d, hd, rfl⟩ := List.mem_map.1 hu
  have hdecimal := isDecimal_toUInt16 (n.digits d hd)
  have hbounds := hdecimal
  rw [isDecimal, Bool.and_eq_true, decide_eq_true_eq, decide_eq_true_eq] at hbounds
  exact ⟨hbounds.1, hbounds.2, hdecimal⟩

theorem isDecimal_lt {u : UInt16} (h : isDecimal u = true) : u < 82 := by
  rw [isDecimal, Bool.and_eq_true] at h
  have hle : u.toNat ≤ 57 := UInt16.le_iff_toNat_le.1 (of_decide_eq_true h.2)
  exact UInt16.lt_iff_toNat_lt.2 (Nat.lt_of_le_of_lt hle (by decide))

theorem isCapital_of_lt (tables : Tables) (h : ∀ u ∈ w, u < 82) : IsCapital tables w := by
  refine ⟨toUpperCase_of_lt tables fun u hu => UInt16.lt_trans (h u hu) (by decide), ?_⟩
  intro hhead
  exact absurd (h 82 (List.mem_of_mem_head? hhead)) (by decide)

theorem isCapital_adr (tables : Tables) (n : Numeral) :
    IsCapital tables (js "ADR" ++ widen n.text) := by
  refine ⟨toUpperCase_of_lt tables ?_, nofun⟩
  intro u hu
  rcases List.mem_append.1 hu with hu | hu
  · have hall : (js "ADR").all (· < 96) = true := by decide
    exact of_decide_eq_true (List.all_eq_true.1 hall u hu)
  · exact UInt16.lt_trans (isDecimal_lt (digits_below n u hu).2.2) (by decide)

theorem isCapital_keyword (tables : Tables) (h : k ∈ keywords) : IsCapital tables k := by
  have hall : keywords.all (fun k => k.all (· < 96) && k.head? ≠ some 82) = true := by decide
  have hk := List.all_eq_true.1 hall k h
  rw [Bool.and_eq_true] at hk
  exact ⟨toUpperCase_of_lt tables fun u hu => of_decide_eq_true (List.all_eq_true.1 hk.1 u hu),
    of_decide_eq_true hk.2⟩

/-- The number that the digits spell is read, unless it is too large. -/
theorem parseInt_digits (n : Numeral) (h : (Binary64.ofInt n.value).isSome = true) {s : JsString}
    (hs : ∀ c ∈ s, isDecimal c = false) :
    parseInt (widen n.text ++ s) = some (n.value : Int) := by
  have hdecimal : ∀ u ∈ widen n.text, isDecimal u = true := fun u hu => (digits_below n u hu).2.2
  have hvalue : decimal (widen n.text) = n.value := by
    rw [decimal, widen, List.foldl_map]
    rfl
  have hne : widen n.text ≠ [] := by
    intro hnil
    exact n.ne_nil (List.map_eq_nil_iff.1 hnil)
  have hstop : s.takeWhile isDecimal = [] := by
    cases s with
    | nil => rfl
    | cons c s =>
      apply List.takeWhile_cons_of_neg
      rw [hs c List.mem_cons_self]
      exact Bool.false_ne_true
  cases htext : widen n.text with
  | nil => exact absurd htext hne
  | cons u s' =>
    rw [htext] at hdecimal hvalue
    have hu := hdecimal u List.mem_cons_self
    have hwhite : isWhiteSpace u = false := (isWordChar_of_isDecimal hu).2.2.2
    have hsign : u ≠ 45 ∧ u ≠ 43 := by
      constructor
      · rintro rfl
        cases hu
      · rintro rfl
        cases hu
    have htake : (u :: s' ++ s).takeWhile isDecimal = u :: s' := by
      rw [List.takeWhile_append_of_pos hdecimal, hstop, List.append_nil]
    have hminus : ¬ (u :: s' ++ s).head? = some 45 := fun h => hsign.1 (Option.some.inj h)
    have hplus : ¬ (u :: s' ++ s).head? = some 43 := fun h => hsign.2 (Option.some.inj h)
    rw [parseInt, List.cons_append,
      List.dropWhile_cons_of_neg (by rw [hwhite]; exact Bool.false_ne_true), ← List.cons_append]
    simp only [hminus, hplus, or_self, if_false, htake, hvalue]
    rw [if_neg (List.cons_ne_nil u s'), if_neg]
    intro hnone
    rw [Option.isNone_iff_eq_none.1 hnone] at h
    cases h

theorem parseInt_append_white (h : ∀ c ∈ s, isWhiteSpace c = true) (s' : JsString) :
    parseInt (s ++ s') = parseInt s' := by
  rw [parseInt, parseInt, List.dropWhile_append_of_pos h]

theorem not_isDecimal_of_isWhiteSpace (h : isWhiteSpace c = true) : isDecimal c = false := by
  apply Bool.eq_false_iff.2
  intro hd
  have hwhite := (isWordChar_of_isDecimal hd).2.2.2
  rw [h] at hwhite
  cases hwhite

/-- The white space of shield is white space. -/
theorem isWhiteSpace_toUInt16 {c : UInt8} (h : isWhitespace c = true) :
    isWhiteSpace c.toUInt16 = true ∧ c.toUInt16 < 82 := by
  simp only [isWhitespace, Bool.or_eq_true, beq_iff_eq] at h
  rcases h with ((rfl | rfl) | rfl) | rfl <;> decide

theorem addressAt_pred (addresses : List GoString) {n : Nat} (h : 0 < n) :
    addressAt addresses ((n : Int) - 1) = addresses[n - 1]? := by
  have hindex : ((n : Int) - 1).toNat = n - 1 := by omega
  rw [addressAt, if_neg (by omega), hindex]

theorem ofInt_of_index {n k : Nat} (h : n ≤ k) (hk : k < 2 ^ 32) :
    (Binary64.ofInt (n : Int)).isSome = true := by
  rw [← Option.not_isNone, Bool.not_eq_true', ← Bool.not_eq_true, Option.isNone_iff_eq_none,
    Binary64.ofInt_eq_none_iff, Int.natAbs_natCast, Nat.not_le]
  have hpow : 2 ^ 1024 = 2 ^ 970 * 2 ^ 54 := by rw [← Nat.pow_add]
  have hle (e : Nat) (he : 32 ≤ e) : 2 ^ 32 ≤ 2 ^ e := Nat.pow_le_pow_right Nat.two_pos he
  have hle := hle 970 (by decide)
  rw [hpow]
  generalize 2 ^ 970 = top at hle
  omega

/-- A word between blanks that is the word between white space, with further white space at most
behind an address, where upper case leaves it as it is, and beside digits, where shield skips it. -/
inductive SameWord (tables : Tables) : JsString → JsString → Prop
  | same : SameWord tables w w
  | address (hw : js "ADR" <+: w) (hs : ∀ c ∈ s, isWhiteSpace c = true)
      (hupper : toUpperCase tables (w ++ s) = w ++ s) : SameWord tables w (w ++ s)
  | number (hw : ∀ c ∈ w, isDecimal c = true) (hl : ∀ c ∈ l, isWhitespace c = true)
      (hr : ∀ c ∈ r, isWhitespace c = true) : SameWord tables w (widen l ++ w ++ widen r)

/-- The items of a code between white space, and those that its trimmed texts have between
blanks. A group behind `FROM` is a list. -/
inductive Agree (tables : Tables) : Option JsString → List Item → List Item → Prop
  | nil : Agree tables prev [] []
  | word (hw : SameWord tables w w') (h : Agree tables (some w) is ks) :
      Agree tables prev (.word w :: is) (.word w' :: ks)
  | list {inner inner' : Bracketed} (hprev : prev = some (js "FROM"))
      (hlist : inner'.elements (splitTokens .array) = inner.elements (fields isDivider))
      (h : Agree tables none is ks) : Agree tables prev (.group inner :: is) (.group inner' :: ks)
  | group {inner inner' : Bracketed} (hprev : prev ≠ some (js "FROM"))
      (hinner : Agree tables none (inner.items (fields isWhiteSpace))
        (inner'.items (splitTokens .expression)))
      (h : Agree tables none is ks) : Agree tables prev (.group inner :: is) (.group inner' :: ks)

theorem Agree.split {is₁ is₂ ks : List Item} (h : Agree tables prev (is₁ ++ .word w :: is₂) ks) :
    ∃ ks₁ w' ks₂, ks = ks₁ ++ .word w' :: ks₂ ∧ Agree tables prev is₁ ks₁ ∧ SameWord tables w w' ∧
      Agree tables (some w) is₂ ks₂ := by
  induction is₁ generalizing prev ks with
  | nil =>
    cases h with
    | word hw h => exact ⟨[], _, _, rfl, .nil, hw, h⟩
  | cons i is₁ ih =>
    cases h with
    | word hw h =>
      obtain ⟨ks₁, w', ks₂, rfl, hleft, hmiddle, hright⟩ := ih h
      exact ⟨_, w', ks₂, rfl, .word hw hleft, hmiddle, hright⟩
    | list hprev hlist h =>
      obtain ⟨ks₁, w', ks₂, rfl, hleft, hmiddle, hright⟩ := ih h
      exact ⟨_, w', ks₂, rfl, .list hprev hlist hleft, hmiddle, hright⟩
    | group hprev hinner h =>
      obtain ⟨ks₁, w', ks₂, rfl, hleft, hmiddle, hright⟩ := ih h
      exact ⟨_, w', ks₂, rfl, .group hprev hinner hleft, hmiddle, hright⟩

theorem SameWord.keyword (h : SameWord tables k w') (hk : k ∈ keywords) : w' = k := by
  have hall : (keywords.all fun k => !(js "ADR").isPrefixOf k && k.any (!isDecimal ·)) = true := by
    decide
  have hnot := List.all_eq_true.1 hall k hk
  rw [Bool.and_eq_true, Bool.not_eq_true'] at hnot
  cases h with
  | same => rfl
  | address hw hs hupper =>
    rw [List.isPrefixOf_iff_prefix.2 hw] at hnot
    cases hnot.1
  | number hw hl hr =>
    obtain ⟨u, hu, hletter⟩ := List.any_eq_true.1 hnot.2
    rw [hw u hu] at hletter
    cases hletter

theorem whiteSpace_widen (h : ∀ c ∈ s, isWhitespace c = true) :
    ∀ c ∈ widen s, isWhiteSpace c = true ∧ c < 82 := by
  intro u hu
  obtain ⟨c, hc, rfl⟩ := List.mem_map.1 hu
  exact isWhiteSpace_toUInt16 (h c hc)

theorem SameWord.isCapital (h : SameWord tables w w') (hw : IsCapital tables w) :
    IsCapital tables w' := by
  cases h with
  | same => exact hw
  | address hadr hs hupper =>
    obtain ⟨s', rfl⟩ := hadr
    exact ⟨hupper, nofun⟩
  | number hdigits hl hr =>
    apply isCapital_of_lt
    intro u hu
    rcases List.mem_append.1 hu with hu | hu
    · rcases List.mem_append.1 hu with hu | hu
      · exact (whiteSpace_widen hl u hu).2
      · exact isDecimal_lt (hdigits u hu)
    · exact (whiteSpace_widen hr u hu).2

section
variable {tables : Tables} {addresses : List GoString}

/-- The threshold is read by `parseInt` and by shield. -/
theorem SameWord.threshold {n : Numeral} (h : SameWord tables (widen n.text) w')
    (hfinite : (Binary64.ofInt n.value).isSome = true) :
    (shieldWords tables addresses).number w' n.value := by
  have hknown {l r : GoString} (hl : ∀ c ∈ l, isWhitespace c = true)
      (hr : ∀ c ∈ r, isWhitespace c = true) :
      (shieldWords tables addresses).number (widen l ++ widen n.text ++ widen r) n.value := by
    have hstop : ∀ c ∈ widen r, isDecimal c = false := fun c hc =>
      not_isDecimal_of_isWhiteSpace (whiteSpace_widen hr c hc).1
    constructor
    · rw [List.append_assoc, parseInt_append_white fun c hc => (whiteSpace_widen hl c hc).1,
        parseInt_digits n hfinite hstop]
      rfl
    · left
      refine ⟨n, ?_, rfl⟩
      have hwiden : widen l ++ widen n.text ++ widen r = widen (l ++ n.text ++ r) := by
        rw [widen, widen, widen, widen, List.map_append, List.map_append]
      rw [hwiden, utf8_spaced n hl hr]
      exact (Phrase.number n).lexes.between hl hr
  generalize hw : widen n.text = w at h
  cases h with
  | same =>
    rw [← hw, ← List.append_nil (widen n.text)]
    exact hknown (l := []) (r := []) (List.forall_mem_nil _) (List.forall_mem_nil _)
  | address hadr hs hupper =>
    obtain ⟨s, rfl⟩ := hadr
    have hlow := (digits_below n 65 (hw ▸ List.mem_cons_self)).2.1
    exact absurd hlow (by decide)
  | number hdigits hl hr =>
    rw [← hw]
    exact hknown hl hr

variable (haddresses : ∀ a ∈ addresses, IsAddress a) (hlength : addresses.length < 2 ^ 32)
include haddresses hlength

theorem address_known {n : Numeral} (hpos : 0 < n.value) (ha : addresses[n.value - 1]? = some a)
    (hs : ∀ c ∈ s, isWhiteSpace c = true)
    (hupper : toUpperCase tables (js "ADR" ++ widen n.text ++ s) = js "ADR" ++ widen n.text ++ s) :
    startsWithAdr tables (js "ADR" ++ widen n.text ++ s) = true ∧ a ≠ [] ∧
      ((parseInt ((js "ADR" ++ widen n.text ++ s).drop 3)).map (· - 1)).bind
        (addressAt addresses) = some a := by
  obtain ⟨hlt, -⟩ := List.getElem?_eq_some_iff.1 ha
  have hparse := parseInt_digits n (ofInt_of_index (n := n.value) (by omega) hlength)
    fun c hc => not_isDecimal_of_isWhiteSpace (hs c hc)
  have hdrop : (js "ADR" ++ widen n.text ++ s).drop 3 = widen n.text ++ s := rfl
  refine ⟨?_, ?_, ?_⟩
  · rw [startsWithAdr, hupper, List.append_assoc]
    exact List.isPrefixOf_iff_prefix.2 (List.prefix_append _ _)
  · obtain ⟨c, s, rfl, -⟩ := (haddresses a (List.mem_of_getElem? ha)).isWord
    exact List.cons_ne_nil c s
  · rw [hdrop, hparse, Option.map_some, Option.bind_some, addressAt_pred addresses hpos, ha]

theorem element_known (h : (editorWords addresses).element w a) :
    (shieldWords tables addresses).element w a := by
  obtain ⟨n, rfl, hpos, ha⟩ := h
  have hupper := (isCapital_adr tables n).upper
  rw [← List.append_nil (js "ADR" ++ widen n.text)] at hupper ⊢
  exact address_known haddresses hlength hpos ha (List.forall_mem_nil _) hupper

theorem SameWord.known (h : SameWord tables w w') (hw : (editorWords addresses).address w a) :
    (shieldWords tables addresses).address w' a := by
  obtain ⟨n, rfl, hpos, ha⟩ := hw
  have hcapital := h.isCapital (isCapital_adr tables n)
  change startsWithAdr tables (toUpperCase tables w') = true ∧ _
  rw [hcapital.upper]
  generalize hw : js "ADR" ++ widen n.text = w at h
  cases h with
  | same => exact element_known haddresses hlength ⟨n, hw.symm, hpos, ha⟩
  | address hadr hs hupper =>
    rw [← hw] at hupper ⊢
    exact address_known haddresses hlength hpos ha hs hupper
  | number hdigits hl hr =>
    have hletter := hdigits 65 (hw ▸ List.mem_cons_self)
    cases hletter

/-- The words of the editor are known to the translation, if the numbers are finite. -/
theorem reads_shieldWords {level : Level} (h : Reads (editorWords addresses) level is t)
    (hagree : Agree tables prev is ks) (hprev : prev ≠ some (js "FROM"))
    (hfinite : ∀ c ∈ t.leaves, c.Finite) :
    Reads (shieldWords tables addresses) level ks t := by
  have hkeyword {k : JsString} (hk : k ∈ keywords) : toUpperCase tables k = k :=
    (isCapital_keyword tables hk).upper
  induction h generalizing prev ks with
  | address h =>
    cases hagree with
    | word hw hrest =>
      cases hrest
      exact .address (hw.known haddresses hlength h)
  | all hall hfrom hlist helements =>
    cases hall
    cases hfrom
    have helements : List.Forall₂ (shieldWords tables addresses).element _ _ :=
      helements.imp fun _ _ => element_known haddresses hlength
    cases hagree with
    | word hw hrest =>
      cases hrest with
      | word hf hrest =>
        obtain rfl := hw.keyword (by decide)
        obtain rfl := hf.keyword (by decide)
        cases hrest with
        | list _ hsame hrest =>
          cases hrest
          exact .all (hkeyword (by decide)) (hkeyword (by decide)) (hsame.trans hlist) helements
        | group hne _ _ => exact absurd rfl hne
  | any hany hnumber hfrom hlist helements =>
    cases hany
    cases hfrom
    obtain ⟨n, rfl, rfl, -⟩ := hnumber
    have helements : List.Forall₂ (shieldWords tables addresses).element _ _ :=
      helements.imp fun _ _ => element_known haddresses hlength
    have hfinite := hfinite _ (List.mem_singleton_self _)
    cases hagree with
    | word hw hrest =>
      cases hrest with
      | word hd hrest =>
        cases hrest with
        | word hf hrest =>
          obtain rfl := hw.keyword (by decide)
          have hnumber : (shieldWords tables addresses).number _ n.value := hd.threshold hfinite
          obtain rfl := hf.keyword (by decide)
          cases hrest with
          | list _ hsame hrest =>
            cases hrest
            exact .any (hkeyword (by decide)) hnumber (hkeyword (by decide)) (hsame.trans hlist)
              helements
          | group hne _ _ => exact absurd rfl hne
  | group _ ih =>
    cases hagree with
    | list heq _ _ => exact absurd heq hprev
    | group _ hinner hrest =>
      cases hrest
      exact .group (ih hinner (by simp) hfinite)
  | ofOperand _ ih => exact .ofOperand (ih hagree hprev hfinite)
  | and _ hop _ ihl ihr =>
    cases hop
    obtain ⟨ks₁, w', ks₂, rfl, hleft, hw, hright⟩ := hagree.split
    obtain rfl := hw.keyword (by decide)
    exact .and (ihl hleft hprev fun c hc => hfinite c (List.mem_append_left _ hc))
      (hkeyword (by decide))
      (ihr hright (by decide) fun c hc => hfinite c (List.mem_append_right _ hc))
  | ofConjunction _ ih => exact .ofConjunction (ih hagree hprev hfinite)
  | or _ hop _ ihl ihr =>
    cases hop
    obtain ⟨ks₁, w', ks₂, rfl, hleft, hw, hright⟩ := hagree.split
    obtain rfl := hw.keyword (by decide)
    exact .or (ihl hleft hprev fun c hc => hfinite c (List.mem_append_left _ hc))
      (hkeyword (by decide))
      (ihr hright (by decide) fun c hc => hfinite c (List.mem_append_right _ hc))

end

theorem reads_positive {level : Level} (h : Reads (editorWords addresses) level is t) :
    ∀ c ∈ t.leaves, c.Positive := by
  induction h with
  | address h =>
    intro c hc
    obtain rfl := List.mem_singleton.1 hc
    trivial
  | all hall hfrom hlist helements =>
    intro c hc
    obtain rfl := List.mem_singleton.1 hc
    trivial
  | any hany hnumber hfrom hlist helements =>
    intro c hc
    obtain rfl := List.mem_singleton.1 hc
    obtain ⟨n, -, -, hpos⟩ := hnumber
    exact hpos
  | group _ ih => exact ih
  | ofOperand _ ih => exact ih
  | and _ _ _ ihl ihr =>
    intro c hc
    rcases List.mem_append.1 hc with hc | hc
    · exact ihl c hc
    · exact ihr c hc
  | ofConjunction _ ih => exact ih
  | or _ _ _ ihl ihr =>
    intro c hc
    rcases List.mem_append.1 hc with hc | hc
    · exact ihl c hc
    · exact ihr c hc

/-- The words of a code and of its groups, behind the word given. -/
def itemWords (tables : Tables) : Option JsString → List Item → List JsString
  | _, [] => []
  | _, .word w :: is => w :: itemWords tables (some w) is
  | prev, .group inner :: is =>
    inner.vocabulary tables (groupType tables prev.toList) ++ itemWords tables none is

theorem itemWords_words (tables : Tables) (ws : List JsString) (prev : Option JsString)
    (is : List Item) : itemWords tables prev (ws.map .word ++ is) =
      ws ++ itemWords tables (ws.getLast?.or prev) is := by
  induction ws generalizing prev with
  | nil => rfl
  | cons w ws ih =>
    rw [List.map_cons, List.cons_append, itemWords, ih, List.cons_append]
    cases ws with
    | nil => rfl
    | cons w' ws =>
      rw [List.getLast?_cons_cons]
      cases hlast : (w' :: ws).getLast? with
      | none => exact absurd (List.getLast?_eq_none_iff.1 hlast) (List.cons_ne_nil _ _)
      | some last => rfl

theorem vocabulary_eq (tables : Tables) (b : Bracketed) : b.vocabulary tables .expression =
    itemWords tables none (b.items (splitTokens .expression)) := by
  induction b with
  | text t =>
    have hwords := itemWords_words tables (splitTokens .expression t.text) none []
    rw [List.append_nil] at hwords
    rw [items, hwords, itemWords, List.append_nil]
    rfl
  | group t inner rest _ ih =>
    rw [items, itemWords_words, itemWords, groupType_behind rfl, ← ih]
    rfl

theorem itemWords_append (tables : Tables) (prev : Option JsString) (is : List Item)
    (w : JsString) (ks : List Item) : itemWords tables prev (is ++ .word w :: ks) =
      itemWords tables prev is ++ w :: itemWords tables (some w) ks := by
  induction is generalizing prev with
  | nil => rfl
  | cons i is ih =>
    cases i with
    | word w' => rw [List.cons_append, itemWords, itemWords, ih, List.cons_append]
    | group inner => rw [List.cons_append, itemWords, itemWords, ih, List.append_assoc]

theorem isCapital_elements (tables : Tables)
    (h : List.Forall₂ (editorWords addresses).element ws as) :
    ∀ w ∈ ws, IsCapital tables w := by
  induction h with
  | nil =>
    intro w hw
    cases hw
  | cons h _ ih =>
    obtain ⟨n, rfl, -⟩ := h
    intro w hw
    rcases List.mem_cons.1 hw with rfl | hw
    · exact isCapital_adr tables n
    · exact ih w hw

theorem list_words (tables : Tables) {inner : Bracketed}
    (hlist : inner.elements (splitTokens .array) = some ws) :
    itemWords tables (some (js "FROM")) [.group inner] = ws := by
  cases inner with
  | group t inner' rest => cases hlist
  | text t =>
    obtain rfl := Option.some.inj hlist
    rw [itemWords, groupType_from rfl, itemWords, List.append_nil]
    rfl

theorem reads_capital (tables : Tables) {level : Level}
    (h : Reads (editorWords addresses) level is t) (hagree : Agree tables prev is ks)
    (hprev : prev ≠ some (js "FROM")) (hprev' : groupType tables prev'.toList = .expression) :
    ∀ w ∈ itemWords tables prev' ks, IsCapital tables w := by
  induction h generalizing prev prev' ks with
  | address h =>
    obtain ⟨n, rfl, -⟩ := h
    cases hagree with
    | word hw hrest =>
      cases hrest
      intro w' hw'
      obtain rfl := List.mem_singleton.1 hw'
      exact hw.isCapital (isCapital_adr tables n)
  | all hall hfrom hlist helements =>
    cases hall
    cases hfrom
    cases hagree with
    | word hw hrest =>
      cases hrest with
      | word hf hrest =>
        obtain rfl := hw.keyword (by decide)
        obtain rfl := hf.keyword (by decide)
        cases hrest with
        | list _ hsame hrest =>
          cases hrest
          intro w hw
          rw [itemWords, itemWords, list_words tables (hsame.trans hlist)] at hw
          rcases List.mem_cons.1 hw with rfl | hw
          · exact isCapital_keyword tables (by decide)
          · rcases List.mem_cons.1 hw with rfl | hw
            · exact isCapital_keyword tables (by decide)
            · exact isCapital_elements tables helements w hw
        | group hne _ _ => exact absurd rfl hne
  | any hany hnumber hfrom hlist helements =>
    cases hany
    cases hfrom
    obtain ⟨n, rfl, -, -⟩ := hnumber
    have hdigits : ∀ u ∈ widen n.text, u < 82 := fun u hu =>
      isDecimal_lt (digits_below n u hu).2.2
    cases hagree with
    | word hw hrest =>
      cases hrest with
      | word hd hrest =>
        cases hrest with
        | word hf hrest =>
          obtain rfl := hw.keyword (by decide)
          obtain rfl := hf.keyword (by decide)
          cases hrest with
          | list _ hsame hrest =>
            cases hrest
            intro w hw
            rw [itemWords, itemWords, itemWords, list_words tables (hsame.trans hlist)] at hw
            rcases List.mem_cons.1 hw with rfl | hw
            · exact isCapital_keyword tables (by decide)
            · rcases List.mem_cons.1 hw with rfl | hw
              · exact hd.isCapital (isCapital_of_lt tables hdigits)
              · rcases List.mem_cons.1 hw with rfl | hw
                · exact isCapital_keyword tables (by decide)
                · exact isCapital_elements tables helements w hw
          | group hne _ _ => exact absurd rfl hne
  | group _ ih =>
    cases hagree with
    | list heq _ _ => exact absurd heq hprev
    | group _ hinner hrest =>
      cases hrest
      intro w hw
      rw [itemWords, hprev', itemWords, List.append_nil, vocabulary_eq] at hw
      exact ih hinner (by simp) rfl w hw
  | ofOperand _ ih => exact ih hagree hprev hprev'
  | ofConjunction _ ih => exact ih hagree hprev hprev'
  | and _ hop _ ihl ihr =>
    cases hop
    obtain ⟨ks₁, w', ks₂, rfl, hleft, hw, hright⟩ := hagree.split
    obtain rfl := hw.keyword (by decide)
    have hnext : groupType tables (some (js "AND")).toList = .expression :=
      groupType_keyword (k := js "AND") (by decide) rfl
    intro w hw
    rw [itemWords_append] at hw
    rcases List.mem_append.1 hw with hw | hw
    · exact ihl hleft hprev hprev' w hw
    · rcases List.mem_cons.1 hw with rfl | hw
      · exact isCapital_keyword tables (by decide)
      · exact ihr hright (by decide) hnext w hw
  | or _ hop _ ihl ihr =>
    cases hop
    obtain ⟨ks₁, w', ks₂, rfl, hleft, hw, hright⟩ := hagree.split
    obtain rfl := hw.keyword (by decide)
    have hnext : groupType tables (some (js "OR")).toList = .expression :=
      groupType_keyword (k := js "OR") (by decide) rfl
    intro w hw
    rw [itemWords_append] at hw
    rcases List.mem_append.1 hw with hw | hw
    · exact ihl hleft hprev hprev' w hw
    · rcases List.mem_cons.1 hw with rfl | hw
      · exact isCapital_keyword tables (by decide)
      · exact ihr hright (by decide) hnext w hw

/-- The code is an expression of the editor for this formula. -/
def Denotes (addresses : List GoString) (code : JsString) (t : Formula Clause) : Prop :=
  ∃ b, Bracketed.read code = some b ∧
    Reads (editorWords addresses) .disjunction (b.items (fields isWhiteSpace)) t

/-- What is cut off at the beginning of a node moves no word over the end of a group. -/
def Aligned (code : JsString) : Prop :=
  ∃ b, Bracketed.read code = some b ∧ b.aligned = true

/-- The words between blanks, when the texts of the code and the elements of its lists are
trimmed, are those between white space, but for white space that nothing reads. -/
def Spaced (tables : Tables) (code : JsString) : Prop :=
  ∃ b, Bracketed.read code = some b ∧ Agree tables none (b.items (fields isWhiteSpace))
    ((b.trimTexts (.first false)).items (splitTokens .expression))

/-- The editor shows a rule for the code, without an error, and shield evaluates it to the value
of the formula for any approvers. -/
def IsShown (tables : Tables) (addresses : List GoString) (code : JsString)
    (t : Formula Clause) : Prop :=
  ∃ N text, (∀ fuel, N ≤ fuel →
      useInputShield tables fuel code addresses = some (.ok (some ([], text)))) ∧
    ∃ e, Parse text = .ok e ∧ ∀ approvers, Eval (some (Act.ApproversEnv approvers)) e =
      .ok (.boolean (t.eval (Clause.eval (approves approvers))))

/-- A code that is aligned becomes a rule that means what the code denotes. -/
theorem useInputShield_means (tables : Tables) {addresses : List GoString}
    (haddresses : ∀ a ∈ addresses, IsAddress a) (hlength : addresses.length < 2 ^ 32)
    (h : Denotes addresses code t) (haligned : Aligned code) (hspaced : Spaced tables code)
    (hfinite : ∀ c ∈ t.leaves, c.Finite) : IsShown tables addresses code t := by
  obtain ⟨b, hread, hreads⟩ := h
  obtain ⟨b', hread', haligned⟩ := haligned
  obtain rfl := Option.some.inj (hread.symm.trans hread')
  obtain ⟨b', hread', hagree⟩ := hspaced
  obtain rfl := Option.some.inj (hread.symm.trans hread')
  obtain rfl := render_of_read hread
  have hcapital : ∀ w ∈ (b.trimTexts (.first false)).vocabulary tables .expression,
      IsCapital tables w := by
    rw [vocabulary_eq tables]
    exact reads_capital tables hreads hagree (by simp) rfl
  have hforeign : Foreign tables b := by
    intro w hw m _
    rw [(hcapital w hw).upper]
    exact (hcapital w hw).ne_refName m
  obtain ⟨n, refs, hrun, hdone⟩ := tokenizeNodes_done haligned hforeign fun w hw =>
    (hcapital w hw).not_prototype
  have hshield := reads_shieldWords haddresses hlength hreads hagree (by simp) hfinite
  obtain ⟨N, text, hshown, hmeans⟩ := hdone.shield hrun haddresses hshield
  obtain ⟨e, hparse, -, heval⟩ := hmeans.parse
  exact ⟨N, text, hshown, e, hparse, heval (reads_positive hreads)⟩

theorem useInputShield_means_any : IsShown ⟨id, natString⟩ [str "warden1a", str "warden1b"]
    (js "ANY 1\t FROM (ADR1,\tADR2)\tAND (ADR2)")
    (.and (.leaf (.any 1 [str "warden1a", str "warden1b"]))
      (.leaf (.address (str "warden1b")))) := by
  have hone : (editorWords [str "warden1a", str "warden1b"]).address (js "ADR1")
      (str "warden1a") := ⟨.ofNat 1, rfl, by decide, rfl⟩
  have htwo : (editorWords [str "warden1a", str "warden1b"]).address (js "ADR2")
      (str "warden1b") := ⟨.ofNat 2, rfl, by decide, rfl⟩
  have hlist : List.Forall₂ (editorWords [str "warden1a", str "warden1b"]).element
      [js "ADR1", js "ADR2"] [str "warden1a", str "warden1b"] := .cons hone (.cons htwo .nil)
  apply useInputShield_means _ isAddress_examples (by decide)
  · refine ⟨_, rfl, .ofConjunction (@Reads.and _ [_, _, _, _] _ _ _ _ (.ofOperand ?_) rfl
      (.group ?_))⟩
    · exact .any rfl ⟨.ofNat 1, rfl, rfl, Nat.one_pos⟩ rfl rfl hlist
    · exact .ofConjunction (.ofOperand (.address htwo))
  · exact ⟨_, rfl, by decide⟩
  · refine ⟨_, rfl, ?_⟩
    have htab : SameWord ⟨id, natString⟩ (js "1") (js "1\t") :=
      .number (l := []) (r := str "\t") (List.forall_mem_singleton.2 rfl)
        (List.forall_mem_nil _) (List.forall_mem_singleton.2 rfl)
    refine .word .same (.word htab (.word .same
      (.list rfl rfl (.word .same (.group (by decide) ?_ .nil)))))
    exact .word .same .nil
  · intro c hc
    rcases List.mem_cons.1 hc with rfl | hc
    · exact (rfl : (Binary64.ofInt 1).isSome = true)
    · obtain rfl := List.mem_singleton.1 hc
      trivial

theorem useInputShield_drops : Denotes [str "warden1a", str "warden1b"]
      (js "(  ADR1) OR ALL FROM (ADR2)")
      (.or (.leaf (.address (str "warden1a"))) (.leaf (.all [str "warden1b"]))) ∧
    ¬ IsShown ⟨id, natString⟩ [str "warden1a", str "warden1b"] (js "(  ADR1) OR ALL FROM (ADR2)")
      (.or (.leaf (.address (str "warden1a"))) (.leaf (.all [str "warden1b"]))) := by
  have hone : (editorWords [str "warden1a", str "warden1b"]).address (js "ADR1")
      (str "warden1a") := ⟨.ofNat 1, rfl, by decide, rfl⟩
  have htwo : (editorWords [str "warden1a", str "warden1b"]).element (js "ADR2")
      (str "warden1b") := ⟨.ofNat 2, rfl, by decide, rfl⟩
  constructor
  · refine ⟨_, rfl, .or (.ofConjunction (.ofOperand (.group ?_))) rfl (.ofOperand ?_)⟩
    · exact .ofConjunction (.ofOperand (.address hone))
    · exact .all rfl rfl rfl (.cons htwo .nil)
  · rintro ⟨N, text, hshown, e, hparse, heval⟩
    have hcode : useInputShield ⟨id, natString⟩ (N + 20) (js "(  ADR1) OR ALL FROM (ADR2)")
        [str "warden1a", str "warden1b"] =
          some (.ok (some ([], str "(warden1a)all([warden1b])"))) := rfl
    have htext := hshown (N + 20) (Nat.le_add_right N 20)
    rw [hcode] at htext
    obtain rfl : str "(warden1a)all([warden1b])" = text := by simpa using htext
    have hfirst : Parse (str "(warden1a)all([warden1b])") =
        .ok (.identifier ⟨⟨.ident, str "warden1a"⟩, str "warden1a"⟩) := rfl
    obtain rfl := Except.ok.inj (hfirst.symm.trans hparse)
    -- The second account has approved: the formula is true, the rule looks at the first only.
    have hfalse : Except.ok (Object.boolean false) =
        (Except.ok (Object.boolean true) : Except Panic Object) := heval [⟨str "warden1b", 0⟩]
    exact Bool.false_ne_true (Object.boolean.inj (Except.ok.inj hfalse))

end WardenProtocol.Spaceward
