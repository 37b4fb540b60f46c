import WardenProtocol.Spaceward.CodeMeaning
import WardenProtocol.Spaceward.CodeReady

namespace WardenProtocol.Spaceward
open Shield Foundation Bracketed
set_option autoImplicit true

/-- The tokens of a code, whose groups are numbered from `n` on. -/
def itemTokens : List Item → Nat → List JsString
  | [], _ => []
  | .word w :: is, n => w :: itemTokens is n
  | .group inner :: is, n => refName n :: itemTokens is (n + 1 + inner.groups)

/-- The number of the groups, those inside of others included. -/
def width : List Item → Nat
  | [] => 0
  | .word _ :: is => width is
  | .group inner :: is => inner.groups + 1 + width is

theorem itemTokens_append (is ks : List Item) (n : Nat) :
    itemTokens (is ++ ks) n = itemTokens is n ++ itemTokens ks (n + width is) := by
  induction is generalizing n with
  | nil => rfl
  | cons i is ih =>
    cases i with
    | word w => rw [List.cons_append, itemTokens, itemTokens, ih, width, List.cons_append]
    | group inner =>
      have hwidth : n + 1 + inner.groups + width is = n + (inner.groups + 1 + width is) := by omega
      rw [List.cons_append, itemTokens, itemTokens, ih, width, List.cons_append, hwidth]

theorem itemTokens_words (ws : List JsString) (n : Nat) : itemTokens (ws.map .word) n = ws := by
  induction ws with
  | nil => rfl
  | cons w ws ih => rw [List.map_cons, itemTokens, ih]

theorem width_words (ws : List JsString) : width (ws.map .word) = 0 := by
  induction ws with
  | nil => rfl
  | cons w ws ih => rw [List.map_cons, width, ih]

theorem itemTokens_ne_nil (h : is ≠ []) (n : Nat) : itemTokens is n ≠ [] := by
  cases is with
  | nil => exact absurd rfl h
  | cons i is => cases i <;> exact List.cons_ne_nil _ _

theorem words_eq (b : Bracketed) (n : Nat) :
    b.words n = itemTokens (b.items (splitTokens .expression)) n := by
  induction b generalizing n with
  | text t => exact (itemTokens_words (fields isBlank t.text) n).symm
  | group t inner rest _ ih =>
    have hwords : splitTokens .expression t.text = fields isBlank t.text := rfl
    rw [words, items, hwords, itemTokens_append, itemTokens_words, width_words, Nat.add_zero n, ih,
      itemTokens]

/-- The dictionary has the nodes of the groups of a code with their tokens, as deep as they are
no lists. -/
inductive Known (tables : Tables) (refs : RefDictionary) :
    Option JsString → List Item → Nat → Prop
  | nil : Known tables refs prev [] n
  | word (hget : refs.get w = none) (hupper : refs.get (toUpperCase tables w) = none)
      (h : Known tables refs (some w) is n) : Known tables refs prev (.word w :: is) n
  | group {inner : Bracketed} (hget : refs.get (refName n) = some c)
      (htokenized : c.tokenized = some t) (htype : t.type = groupType tables prev.toList)
      (hlist : t.type = .array → t.tokens = inner.tokens .array (n + 1))
      (htokens : t.type = .expression →
        t.tokens = itemTokens (inner.items (splitTokens .expression)) (n + 1))
      (hinner : t.type = .expression →
        Known tables refs none (inner.items (splitTokens .expression)) (n + 1))
      (h : Known tables refs (some (refName n)) is (n + 1 + inner.groups)) :
      Known tables refs prev (.group inner :: is) n

section
variable {tables : Tables} {refs : RefDictionary}

theorem Known.left (h : Known tables refs prev (is ++ ks) n) : Known tables refs prev is n := by
  induction is generalizing prev n with
  | nil => exact .nil
  | cons i is ih =>
    cases h with
    | word hget hupper h => exact .word hget hupper (ih h)
    | group hget htokenized htype hlist htokens hinner h =>
      exact .group hget htokenized htype hlist htokens hinner (ih h)

theorem Known.right (h : Known tables refs prev (is ++ ks) n) :
    ∃ prev', Known tables refs prev' ks (n + width is) := by
  induction is generalizing prev n with
  | nil => exact ⟨prev, h⟩
  | cons i is ih =>
    cases i with
    | word w =>
      cases h with
      | word hget hupper h => exact ih h
    | group inner =>
      have hwidth : n + width (.group inner :: is) = n + 1 + inner.groups + width is := by
        rw [width]
        omega
      rw [hwidth]
      cases h with
      | group hget htokenized htype hlist htokens hinner h => exact ih h

theorem known_words {ws : List JsString}
    (hws : ∀ w ∈ ws, refs.get w = none ∧ refs.get (toUpperCase tables w) = none)
    (h : Known tables refs (ws.getLast?.or prev) is n) :
    Known tables refs prev (ws.map .word ++ is) n := by
  induction ws generalizing prev with
  | nil => exact h
  | cons w ws ih =>
    obtain ⟨hget, hupper⟩ := hws w List.mem_cons_self
    apply Known.word hget hupper
    apply ih fun w' hw' => hws w' (List.mem_cons_of_mem _ hw')
    cases ws with
    | nil => exact h
    | cons w' ws =>
      rw [List.getLast?_cons_cons] at h
      cases hlast : (w' :: ws).getLast? with
      | none => exact absurd (List.getLast?_eq_none_iff.1 hlast) (List.cons_ne_nil _ _)
      | some last =>
        rw [hlast] at h
        exact h

theorem groupType_behind (h : groupType tables prev.toList = .expression) (ws : List JsString) :
    groupType tables (ws.getLast?.or prev).toList = groupType tables ws := by
  cases hlast : ws.getLast? with
  | none =>
    obtain rfl := List.getLast?_eq_none_iff.1 hlast
    exact h
  | some w =>
    rw [groupType, groupType, hlast]
    rfl

theorem known_of_ready (hrunning : Running tables refs [])
    (hP : ∀ w, P w → refs.get (toUpperCase tables w) = none) (b : Bracketed) (place : Place)
    (hready : ∀ s ∈ b.subgroups tables .expression place n,
      Ready tables refs P (refName s.1) s.2.1 true s.2.2 (s.1 + 1) ∧
        (tokensOf refs (refName s.1)).isSome)
    (hforeign : ∀ w ∈ (b.trimTexts place).vocabulary tables .expression, refs.get w = none ∧ P w)
    (hprev : groupType tables prev.toList = .expression) :
    Known tables refs prev ((b.trimTexts place).items (splitTokens .expression)) n := by
  induction b generalizing prev n place with
  | text t =>
    rw [trimTexts, items, ← List.append_nil (List.map _ _)]
    apply known_words _ .nil
    intro w hw
    obtain ⟨hget, hw⟩ := hforeign w hw
    exact ⟨hget, hP w hw⟩
  | group t inner rest ihi ihr =>
    obtain ⟨hown, hsome⟩ := hready _ List.mem_cons_self
    obtain ⟨node, hget, -, -, hplace⟩ := hown.place
    obtain ⟨tok, htok⟩ := Option.isSome_iff_exists.1 hsome
    have htokenized : node.tokenized = some tok := by
      rw [tokensOf, hget] at htok
      exact htok
    obtain ⟨htokens, htype⟩ := hown.tokens hget (hrunning.consistent _ _ _ hget htokenized)
    rw [trimTexts] at hforeign ⊢
    rw [items]
    apply known_words
    · intro w hw
      obtain ⟨hget, hw⟩ := hforeign w (List.mem_append_left _ hw)
      exact ⟨hget, hP w hw⟩
    · apply Known.group hget htokenized
      · rw [htype, groupType_behind hprev]
      · intro harray
        rw [htype] at harray
        rw [htokens, harray]
      · intro hexpression
        rw [htype] at hexpression
        rw [htokens, hexpression, ← words_eq]
        rfl
      · intro hexpression
        rw [htype] at hexpression
        have hchildren := hown.children htok htokens
        have hwords := hown.foreign
        rw [hexpression] at hchildren hwords
        apply ihi (.first true) _ hwords rfl
        intro s hs
        refine ⟨hchildren s hs, ?_⟩
        have hchild : refName s.1 ∈ node.children := by
          rw [hplace.children, tops_eq tables .expression inner (.first true)]
          exact List.mem_map_of_mem hs
        rcases hrunning.children _ _ _ hget htokenized _ hchild with hmem | hsome
        · cases hmem
        · exact hsome
      · rw [groups_trimTexts]
        apply ihr place.next
        · intro s hs
          exact hready s (List.mem_cons_of_mem _ hs)
        · intro w hw
          exact hforeign w (List.mem_append_right _ (List.mem_append_right _ hw))
        · exact groupType_refName tables [] n

end

theorem codePoints_basic {s : JsString} (h : ∀ u ∈ s, u < 128) :
    codePoints s = s.map UInt16.toNat := by
  have hpoint {u : UInt16} (hu : u < 128) : unitPoint u = u.toNat := by
    have hlt : u.toNat < 128 := hu
    rw [unitPoint, if_neg]
    intro hsurrogate
    rw [Bool.and_eq_true, decide_eq_true_eq, UInt16.le_iff_toNat_le] at hsurrogate
    have hle : 0xD800 ≤ u.toNat := hsurrogate.1
    omega
  induction s with
  | nil => rfl
  | cons u s ih =>
    have hu := h u List.mem_cons_self
    have hrest := ih fun v hv => h v (List.mem_cons_of_mem u hv)
    cases s with
    | nil => rw [codePoints, hpoint hu]; rfl
    | cons v s =>
      have hlt : u.toNat < 128 := hu
      rw [codePoints, if_neg, hpoint hu, hrest]
      · rfl
      · intro hsurrogate
        simp only [Bool.and_eq_true, decide_eq_true_eq, UInt16.le_iff_toNat_le] at hsurrogate
        have hle : 0xD800 ≤ u.toNat := hsurrogate.1.1.1
        omega

theorem utf8_widen (h : ∀ b ∈ s, b < 128) : utf8 (widen s) = s := by
  have hunits : ∀ u ∈ widen s, u < 128 := by
    intro u hu
    obtain ⟨b, hb, rfl⟩ := List.mem_map.1 hu
    have hlt : b.toNat < 128 := h b hb
    rw [UInt16.lt_iff_toNat_lt, UInt8.toNat_toUInt16]
    exact hlt
  rw [utf8, codePoints_basic hunits]
  clear hunits
  induction s with
  | nil => rfl
  | cons b s ih =>
    have hlt : b.toNat < 128 := h b List.mem_cons_self
    have hrest := ih fun c hc => h c (List.mem_cons_of_mem b hc)
    have hbytes : pointBytes b.toUInt16.toNat = [b] := by
      rw [pointBytes, UInt8.toNat_toUInt16, if_pos hlt, List.map_singleton, UInt8.ofNat_toNat]
    rw [widen, List.map_cons, List.map_cons, List.flatMap_cons, hbytes]
    exact congrArg (b :: ·) hrest

theorem utf8_spaced (n : Numeral) (hl : ∀ c ∈ l, isWhitespace c = true)
    (hr : ∀ c ∈ r, isWhitespace c = true) :
    utf8 (widen (l ++ n.text ++ r)) = l ++ n.text ++ r := by
  have hwhite {c : UInt8} (hc : isWhitespace c = true) : c < 128 := by
    simp only [isWhitespace, Bool.or_eq_true, beq_iff_eq] at hc
    rcases hc with ((rfl | rfl) | rfl) | rfl <;> decide
  apply utf8_widen
  intro b hb
  rcases List.mem_append.1 hb with hb | hb
  · rcases List.mem_append.1 hb with hb | hb
    · exact hwhite (hl b hb)
    · have hdigit := n.digits b hb
      simp only [isDigitByte, Bool.and_eq_true, decide_eq_true_eq, UInt8.le_iff_toNat_le] at hdigit
      have hle : b.toNat ≤ 57 := hdigit.2
      rw [UInt8.lt_iff_toNat_lt]
      exact Nat.lt_of_le_of_lt hle (by decide)
  · exact hwhite (hr b hb)

section
variable {tables : Tables} {refs : RefDictionary} {addresses : List GoString}
  {self : CNode → Option (Except Message Translation)} {node : CNode}

theorem startsWithAdr_ne {w : JsString} (h : startsWithAdr tables w = true) :
    OPS w = none ∧ FNS w = none := by
  have hne {k : JsString} (hk : startsWithAdr tables k = false) : w ≠ k := by
    rintro rfl
    rw [hk] at h
    cases h
  constructor
  · rw [OPS, if_neg (hne rfl), if_neg (hne rfl)]
  · rw [FNS, if_neg (hne rfl), if_neg (hne rfl)]

theorem expressionTokens_skip (ws tokens : List JsString) (i : Nat) (errs : ErrorData)
    (result : GoString) :
    expressionTokens tables self node refs addresses ws.length i (ws ++ tokens) errs result =
      expressionTokens tables self node refs addresses 0 (i + ws.length) tokens errs result := by
  induction ws generalizing i with
  | nil => rfl
  | cons w ws ih =>
    have hlength : i + (w :: ws).length = i + 1 + ws.length := by
      rw [List.length_cons]
      omega
    rw [List.length_cons, List.cons_append, expressionTokens, ih, ← List.length_cons (a := w),
      hlength]

theorem expressionTokens_address (hupper : refs.get (toUpperCase tables w) = none)
    (h : (shieldWords tables addresses).address w a) (tokens : List JsString) (i : Nat)
    (errs : ErrorData) (result : GoString) :
    expressionTokens tables self node refs addresses 0 i (w :: tokens) errs result =
      expressionTokens tables self node refs addresses 0 (i + 1) tokens errs (result ++ a) := by
  obtain ⟨hadr, hne, hindex⟩ := h
  obtain ⟨hops, hfns⟩ := startsWithAdr_ne hadr
  have htruthy : truthy (some a) = true := decide_eq_true hne
  rw [expressionTokens]
  simp only [hupper, hops, hfns, hadr, hindex, htruthy, if_true, Option.getD_some]

theorem expressionTokens_op (op : Connective) (hupper : refs.get (toUpperCase tables w) = none)
    (hop : OPS (toUpperCase tables w) = some (connToken op).literal) {tokens : List JsString}
    (htokens : tokens ≠ []) (i : Nat) (errs : ErrorData) (result : GoString) :
    expressionTokens tables self node refs addresses 0 i (w :: tokens) errs result =
      expressionTokens tables self node refs addresses 0 (i + 1) tokens errs
        (result ++ str " " ++ (connToken op).literal ++ str " ") := by
  rw [expressionTokens]
  simp only [hupper, hop, if_neg htokens]

theorem addAll_nil (errs : ErrorData) (i : Nat) : errs.addAll i [] = errs := rfl

theorem expressionTokens_group {c : CNode} (hget : refs.get (refName n) = some c)
    (htokenized : c.tokenized = some t) (htype : t.type = .expression)
    (hself : self c = some (.ok ([], value))) (tokens : List JsString) (i : Nat)
    (errs : ErrorData) (result : GoString) :
    expressionTokens tables self node refs addresses 0 i (refName n :: tokens) errs result =
      expressionTokens tables self node refs addresses 0 (i + 1) tokens errs
        (result ++ str "(" ++ value ++ str ")") := by
  have hne : ¬ c.tokenized.map Tokenized.type = some .array := by
    rw [htokenized, Option.map_some, htype]
    intro h
    cases h
  rw [expressionTokens]
  simp only [toUpperCase_refName, hget, if_neg hne, hself, addAll_nil]

theorem OPS_of_FNS (h : FNS token = some types) : OPS token = none := by
  rw [FNS] at h
  split at h
  · next hall =>
    rw [hall]
    rfl
  · split at h
    · next hany =>
      rw [hany]
      rfl
    · cases h

variable (addresses) in
theorem expressionTokens_call {ws tokens : List JsString}
    (hupper : refs.get (toUpperCase tables w) = none)
    (hfns : FNS (toUpperCase tables w) = some (type :: types))
    (hargs : functionArgs tables self node refs (toUpperCase tables w) (i + 1) (ws ++ tokens) 0 0
      (type :: types) errs [] = some (.ok (errs', args, shift)))
    (hlength : ws.length = shift + (type :: types).length) (result : GoString) :
    expressionTokens tables self node refs addresses 0 i (w :: (ws ++ tokens)) errs result =
      expressionTokens tables self node refs addresses 0 (i + 1 + ws.length) tokens errs'
        (result ++ (toLowerCase (toUpperCase tables w) ++ str "(" ++ join (str ", ") args ++
          str ")")) := by
  have htext : result ++ toLowerCase (toUpperCase tables w) ++ str "(" ++ join (str ", ") args ++
      str ")" = result ++ (toLowerCase (toUpperCase tables w) ++ str "(" ++
        join (str ", ") args ++ str ")") := by
    simp only [List.append_assoc]
  rw [expressionTokens]
  simp only [hupper, OPS_of_FNS hfns, hfns, hargs]
  rw [htext, ← hlength, expressionTokens_skip]

section
variable {c : CNode} (hfrom : toUpperCase tables f = js "FROM")
  (hget : refs.get (refName n) = some c) (hself : self c = some (.ok ([], value)))
  (tokens : List JsString) (i : Nat) (errs : ErrorData) (result : GoString)
include hfrom hget hself

theorem expressionTokens_all (hupper : refs.get (toUpperCase tables w) = none)
    (hall : toUpperCase tables w = js "ALL") :
    expressionTokens tables self node refs addresses 0 i (w :: f :: refName n :: tokens) errs
      result =
        expressionTokens tables self node refs addresses 0 (i + 3) tokens errs
          (result ++ (str "all" ++ str "(" ++ join (str ", ") [value] ++ str ")")) := by
  have hargs : functionArgs tables self node refs (js "ALL") (i + 1) ([f, refName n] ++ tokens) 0 0
      [.arr] errs [] = some (.ok (errs, [value], 1)) := by
    rw [functionArgs]
    simp only [List.cons_append, List.nil_append, List.getElem?_cons_zero, Option.map_some, hfrom,
      ne_eq, not_true, if_false, List.getElem?_cons_succ, Option.bind_some, hget, hself, addAll_nil,
      functionArgs, Nat.zero_add, Nat.add_zero]
  have hlength : [f, refName n].length = 1 + [ArgumentType.arr].length := rfl
  have hfns : FNS (toUpperCase tables w) = some [.arr] := by
    rw [hall]
    rfl
  rw [← hall] at hargs
  have hcall := expressionTokens_call addresses hupper hfns hargs hlength result
  rw [hall] at hcall
  exact hcall

theorem expressionTokens_any (hupper : refs.get (toUpperCase tables w) = none)
    (hany : toUpperCase tables w = js "ANY") (hnumber : (parseInt d).isSome = true) :
    expressionTokens tables self node refs addresses 0 i (w :: d :: f :: refName n :: tokens) errs
      result =
        expressionTokens tables self node refs addresses 0 (i + 4) tokens errs
          (result ++ (str "any" ++ str "(" ++ join (str ", ") [utf8 d, value] ++ str ")")) := by
  have hargs : functionArgs tables self node refs (js "ANY") (i + 1)
      ([d, f, refName n] ++ tokens) 0 0 [.num, .arr] errs [] =
        some (.ok (errs, [utf8 d, value], 1)) := by
    rw [functionArgs, functionArgs]
    simp only [List.cons_append, List.nil_append, List.getElem?_cons_zero, Option.map_some, hfrom,
      ne_eq, not_true, if_false, List.getElem?_cons_succ, Option.bind_some, hget, hself, addAll_nil,
      functionArgs, Nat.zero_add, Nat.add_zero, hnumber, if_true, Option.getD_some]
  have hlength : [d, f, refName n].length = 1 + [ArgumentType.num, .arr].length := rfl
  have hfns : FNS (toUpperCase tables w) = some [.num, .arr] := by
    rw [hany]
    rfl
  rw [← hany] at hargs
  have hcall := expressionTokens_call addresses hupper hfns hargs hlength result
  rw [hany] at hcall
  exact hcall

end

theorem mem_of_addressAt (h : addressAt addresses index = some a) : a ∈ addresses := by
  rw [addressAt] at h
  split at h
  · cases h
  · exact List.mem_of_getElem? h

theorem arrayTokens_ok (h : List.Forall₂ (shieldWords tables addresses).element ws as)
    (i : Nat) (errs : ErrorData) (values : List GoString) :
    arrayTokens tables node addresses i ws errs values = (errs, values ++ as) := by
  induction h generalizing i values with
  | nil => rw [arrayTokens, List.append_nil]
  | @cons w a ws as ha _ ih =>
    obtain ⟨hadr, hne, hindex⟩ := ha
    obtain ⟨index, hparse, haddress⟩ := Option.bind_eq_some_iff.1 hindex
    have htruthy : truthy (some a) = true := decide_eq_true hne
    have hpos : ¬ index < 0 := by
      intro hneg
      rw [addressAt, if_pos hneg] at haddress
      cases haddress
    have htoken : arrayToken tables node addresses i w = .ok a := by
      rw [arrayToken]
      simp only [hadr, if_true, hparse, if_neg hpos, haddress, htruthy, Option.getD_some]
    rw [arrayTokens, htoken]
    simp only [ih, List.append_assoc, List.singleton_append]

theorem toShield_list {c : CNode} (htokenized : c.tokenized = some t) (htype : t.type = .array)
    (h : List.Forall₂ (shieldWords tables addresses).element t.tokens as) (d : Nat) :
    toShield tables refs addresses (d + 1) c = some (.ok ([], defaultStringifyArray as)) := by
  rw [toShield]
  simp only [htokenized, htype, arrayShield, arrayTokens_ok h, List.nil_append]

theorem toShield_expression {c : CNode} (htokenized : c.tokenized = some t)
    (htype : t.type = .expression) (d : Nat) : toShield tables refs addresses (d + 1) c =
      expressionTokens tables (toShield tables refs addresses d) c refs addresses 0 0 t.tokens []
        [] := by
  rw [toShield]
  simp only [htokenized, htype]

theorem Known.list {inner : Bracketed} (h : Known tables refs prev (.group inner :: is) n)
    (hprev : groupType tables prev.toList = .array)
    (hlist : inner.elements (splitTokens .array) = some ws) :
    ∃ c t, refs.get (refName n) = some c ∧ c.tokenized = some t ∧ t.type = .array ∧
      t.tokens = ws := by
  cases h with
  | @group _ c t _ _ _ hget htokenized htype hlists _ _ _ =>
    rw [hprev] at htype
    refine ⟨c, t, hget, htokenized, htype, ?_⟩
    cases inner with
    | group t' inner' rest => cases hlist
    | text t' =>
      obtain rfl := Option.some.inj hlist
      rw [hlists htype, tokens_text]

theorem mem_of_elements (h : List.Forall₂ (shieldWords tables addresses).element ws as) :
    ∀ a ∈ as, a ∈ addresses := by
  induction h with
  | nil =>
    intro a ha
    cases ha
  | cons hw _ ih =>
    obtain ⟨-, -, hindex⟩ := hw
    obtain ⟨index, -, haddress⟩ := Option.bind_eq_some_iff.1 hindex
    intro a ha
    rcases List.mem_cons.1 ha with rfl | ha
    · exact mem_of_addressAt haddress
    · exact ih a ha

/-- The translation of these tokens adds this text to the rule, and no errors. -/
def Translates (tables : Tables) (refs : RefDictionary) (addresses : List GoString)
    (ws : List JsString) (text : GoString) : Prop :=
  ∃ d, ∀ depth, d ≤ depth → ∀ node tokens i errs result,
    expressionTokens tables (toShield tables refs addresses depth) node refs addresses 0 i
      (ws ++ tokens) errs result =
        expressionTokens tables (toShield tables refs addresses depth) node refs addresses 0
          (i + ws.length) tokens errs (result ++ text)

theorem Translates.toShield {c : CNode} {text : GoString}
    (h : Translates tables refs addresses t.tokens text) (htokenized : c.tokenized = some t)
    (htype : t.type = .expression) :
    ∃ d, ∀ depth, d ≤ depth → toShield tables refs addresses depth c = some (.ok ([], text)) := by
  obtain ⟨d, hd⟩ := h
  refine ⟨d + 1, ?_⟩
  intro depth hle
  obtain ⟨k, rfl⟩ : ∃ k, depth = k + 1 := ⟨depth - 1, by omega⟩
  have htranslate := hd k (by omega) c [] 0 [] []
  rw [List.append_nil] at htranslate
  rw [toShield_expression htokenized htype, htranslate, expressionTokens]
  rfl

theorem Translates.op (op : Connective) (hl : Translates tables refs addresses ls l)
    (hr : Translates tables refs addresses rs r) (hne : rs ≠ [])
    (hupper : refs.get (toUpperCase tables w) = none)
    (hop : OPS (toUpperCase tables w) = some (connToken op).literal) :
    Translates tables refs addresses (ls ++ w :: rs) (l ++ operatorText (some op) ++ r) := by
  obtain ⟨d, hd⟩ := hl
  obtain ⟨d', hd'⟩ := hr
  refine ⟨max d d', ?_⟩
  intro depth hle node tokens i errs result
  have hlength : i + ls.length + 1 + rs.length = i + (ls ++ w :: rs).length := by
    rw [List.length_append, List.length_cons]
    omega
  have htext : result ++ l ++ str " " ++ (connToken op).literal ++ str " " ++ r =
      result ++ (l ++ operatorText (some op) ++ r) := by
    have hop : operatorText (some op) = str " " ++ ((connToken op).literal ++ str " ") := by
      cases op <;> rfl
    simp only [hop, List.append_assoc]
  rw [List.append_assoc, hd depth (by omega), List.cons_append,
    expressionTokens_op op hupper hop (List.append_ne_nil_of_left_ne_nil hne _),
    hd' depth (by omega), hlength, htext]

theorem groupType_keyword {k : JsString} (hk : k ≠ js "FROM") (hw : toUpperCase tables w = k) :
    groupType tables (some w).toList = .expression := by
  rw [groupType, Option.toList_some, List.getLast?_singleton, Option.map_some, hw, if_neg]
  exact fun h => hk (Option.some.inj h)

theorem groupType_from (hw : toUpperCase tables w = js "FROM") :
    groupType tables (some w).toList = .array := by
  rw [groupType, Option.toList_some, List.getLast?_singleton, Option.map_some, hw, if_pos rfl]

theorem Reads.translates {level : Level} (h : Reads (shieldWords tables addresses) level is t)
    (haddresses : ∀ a ∈ addresses, IsAddress a) (hknown : Known tables refs prev is n)
    (hprev : groupType tables prev.toList = .expression) :
    ∃ text, Means addresses level text t ∧
      Translates tables refs addresses (itemTokens is n) text := by
  induction h generalizing prev n with
  | @address w a h =>
    cases hknown with
    | word _ hupper _ =>
      obtain ⟨index, -, haddress⟩ := Option.bind_eq_some_iff.1 h.2.2
      have ha := mem_of_addressAt haddress
      refine ⟨a, means_address (haddresses a ha) ha, 0, ?_⟩
      intro depth _ node tokens i errs result
      exact expressionTokens_address hupper h tokens i errs result
  | all hall hfrom hlist helements =>
    cases hknown with
    | word _ hupper hknown =>
      cases hknown with
      | word _ _ hknown =>
        obtain ⟨c, t, hget, htokenized, htype, rfl⟩ := hknown.list (groupType_from hfrom) hlist
        have has := mem_of_elements helements
        refine ⟨_, means_all (fun a ha => haddresses a (has a ha)) has, 1, ?_⟩
        intro depth hle node tokens i errs result
        obtain ⟨k, rfl⟩ : ∃ k, depth = k + 1 := ⟨depth - 1, by omega⟩
        exact expressionTokens_all hfrom hget (toShield_list htokenized htype helements k) tokens i
          errs result hupper hall
  | @any w d k f ws as inner hany hnumber hfrom hlist helements =>
    cases hknown with
    | word _ hupper hknown =>
      cases hknown with
      | word _ _ hknown =>
        cases hknown with
        | word _ _ hknown =>
          obtain ⟨c, t, hget, htokenized, htype, rfl⟩ := hknown.list (groupType_from hfrom) hlist
          have has := mem_of_elements helements
          have htranslates : Translates tables refs addresses (itemTokens [.word w, .word d,
              .word f, .group inner] n) (str "any" ++ str "(" ++
                join (str ", ") [utf8 d, defaultStringifyArray as] ++ str ")") := by
            refine ⟨1, ?_⟩
            intro depth hle node tokens i errs result
            obtain ⟨k, rfl⟩ : ∃ k, depth = k + 1 := ⟨depth - 1, by omega⟩
            exact expressionTokens_any hfrom hget (toShield_list htokenized htype helements k)
              tokens i errs result hupper hany hnumber.1
          rcases hnumber.2 with ⟨m, hlexes, rfl⟩ | ⟨rfl, harguments⟩
          · exact ⟨_, means_any hlexes (fun a ha => haddresses a (has a ha)) has, htranslates⟩
          · exact ⟨_, means_arguments harguments (fun a ha => haddresses a (has a ha)) has,
              htranslates⟩
  | group _ ih =>
    cases hknown with
    | @group _ c tok _ _ inner hget htokenized htype hlist htokens hinner _ =>
      rw [hprev] at htype
      obtain ⟨text, hmeans, htranslates⟩ := ih (hinner htype) rfl
      have htranslates : Translates tables refs addresses tok.tokens text := by
        rw [htokens htype]
        exact htranslates
      obtain ⟨d, hd⟩ := htranslates.toShield htokenized htype
      refine ⟨_, hmeans.group, d, ?_⟩
      intro depth hle node tokens i errs result
      have htext : result ++ str "(" ++ text ++ str ")" =
          result ++ (str "(" ++ text ++ str ")") := by
        simp only [List.append_assoc]
      rw [← htext]
      exact expressionTokens_group hget htokenized htype (hd depth hle) tokens i errs result
  | ofOperand _ ih =>
    obtain ⟨text, hmeans, htranslates⟩ := ih hknown hprev
    exact ⟨text, hmeans.ofOperand, htranslates⟩
  | @and is l w ks r _ hop hr ihl ihr =>
    obtain ⟨text, hmeans, htranslates⟩ := ihl hknown.left hprev
    obtain ⟨prev', hright⟩ := hknown.right
    cases hright with
    | word _ hupper hright =>
      obtain ⟨text', hmeans', htranslates'⟩ := ihr hright (groupType_keyword (by decide) hop)
      have hops : OPS (toUpperCase tables w) = some (connToken .and).literal := by
        rw [show toUpperCase tables w = js "AND" from hop]
        rfl
      rw [itemTokens_append]
      exact ⟨_, hmeans.and hmeans', htranslates.op .and htranslates'
        (itemTokens_ne_nil hr.ne_nil _) hupper hops⟩
  | ofConjunction _ ih =>
    obtain ⟨text, hmeans, htranslates⟩ := ih hknown hprev
    exact ⟨text, hmeans.ofConjunction, htranslates⟩
  | @or is l w ks r _ hop hr ihl ihr =>
    obtain ⟨text, hmeans, htranslates⟩ := ihl hknown.left hprev
    obtain ⟨prev', hright⟩ := hknown.right
    cases hright with
    | word _ hupper hright =>
      obtain ⟨text', hmeans', htranslates'⟩ := ihr hright (groupType_keyword (by decide) hop)
      have hops : OPS (toUpperCase tables w) = some (connToken .or).literal := by
        rw [show toUpperCase tables w = js "OR" from hop]
        rfl
      rw [itemTokens_append]
      exact ⟨_, hmeans.or hmeans', htranslates.op .or htranslates'
        (itemTokens_ne_nil hr.ne_nil _) hupper hops⟩

end

end WardenProtocol.Spaceward
