import WardenProtocol.Warden.Expansion
import WardenProtocol.Warden.Owners

namespace WardenProtocol.Warden
open Act Shield Repo Foundation Std
set_option autoImplicit true

variable {O X : Type} {k : App O X} {rest : O} {s : Store O X}

/-- Every text that spells an account contains the separator, `1`. -/
def Separated (b : Bech32) : Prop :=
  ∀ s a, b.AccAddressFromBech32 s = some a → 49 ∈ s

theorem Separated.builtins_none {b : Bech32} (h : Separated b)
    (ha : (b.AccAddressFromBech32 name).isSome) : builtins name = none := by
  obtain ⟨a, ha⟩ := Option.isSome_iff_exists.1 ha
  have hmem := h name a ha
  rw [builtins]
  split
  · rename_i hname
    rw [hname] at hmem
    exact absurd hmem (by decide)
  · split
    · rename_i hname
      rw [hname] at hmem
      exact absurd hmem (by decide)
    · split
      · rename_i hname
        rw [hname] at hmem
        exact absurd hmem (by decide)
      · rfl

theorem extractSpaceID_of_spaceOf {c : Chain O X} {msg : Msg X}
    (h : spaceOf c.app msg = some spaceId) : App.extractSpaceID c msg = .ok spaceId := by
  have hkey {id : Nat} (hid : c.app.keys[id]?.map Key.spaceId = some spaceId) : (do
      let key ← c.app.getKey id
      Except.ok key.spaceId) = (.ok spaceId : Except Fault Nat) := by
    obtain ⟨key, hget, rfl⟩ := Option.map_eq_some_iff.1 hid
    rw [App.getKey_eq_ok.2 hget]
    rfl
  cases msg with
  | addSpaceOwner msg => exact congrArg Except.ok (Option.some.inj h)
  | removeSpaceOwner msg => exact congrArg Except.ok (Option.some.inj h)
  | updateSpace msg => exact congrArg Except.ok (Option.some.inj h)
  | newKeyRequest msg => exact congrArg Except.ok (Option.some.inj h)
  | updateKey msg => exact hkey h
  | newSignRequest msg => exact hkey h
  | _ => cases h

/-- The owners of the space of a message are what its default rule is expanded with. -/
theorem expandSpaceOwners_of_spaceOf {id : Nat} {c : Chain O X} {msg : Msg X}
    (hmsg : spaceOf c.app msg = some id) (hget : c.app.spaces.map[id]? = some space) :
    App.expandSpaceOwners msg c = .ok (ownersArray space) := by
  rw [App.expandSpaceOwners, extractSpaceID_of_spaceOf hmsg, ok_bind,
    SeqCollection.Get_eq_ok.2 hget]
  rfl

theorem Preprocess_anyOwner_ok (ctx : Context) {c : Chain O X} {msg : Msg X}
    (h : App.expandSpaceOwners msg c = .ok x) :
    Preprocess (App.expand ctx msg c) anyOwner.expression = .ok (anyOne x) := by
  have hexpand := (expand_spaceOwners ctx msg c).trans h
  simp only [anyOwner, anyOne, Preprocess, preprocessElements, hexpand, ok_bind]

theorem complete_anyOne_owners (space : Space) : (anyOne (ownersArray space)).Complete := by
  rw [anyOne, Expression.complete_call]
  intro e he
  rcases List.mem_cons.1 he with rfl | he
  · exact Expression.complete_integer _ _
  · cases List.mem_singleton.1 he
    rw [ownersArray, Expression.complete_array]
    intro e he
    obtain ⟨owner, -, rfl⟩ := List.mem_map.1 he
    exact Expression.complete_identifier _

/-- The default rule of a space, as an action of a message of the space is created with it. -/
theorem preprocessRule_anyOwner {id : Nat} (k : App O X) (ctx : Context) {c : Chain O X}
    {msg : Msg X} (hmsg : spaceOf c.app msg = some id) (hget : c.app.spaces.map[id]? = some space) :
    ∃ mentions, k.keeper.preprocessRule ctx msg anyOwner c =
      .ok (anyOne (ownersArray space), mentions) := by
  have hexp : k.keeper.shieldExpander ctx msg c = App.expand ctx msg c := rfl
  have hpre := Preprocess_anyOwner_ok ctx (expandSpaceOwners_of_spaceOf hmsg hget)
  obtain ⟨m, hm⟩ := ExtractMetadata_defined (complete_anyOne_owners space)
  rw [Keeper.preprocessRule, hexp, hpre, ok_bind, hm]
  exact ⟨_, rfl⟩

/-- Wherever the handlers lead from the empty state: the default rule, expanded for any message of a
space, is evaluated over any approvers without an error, and is true exactly if one of them is an
owner of the space. -/
theorem leads_anyOwner {id : Nat} {space : Space} {msg : Msg X} (hb : Separated k.bech32)
    (h : k.keeper.Leads (Keeper.genesis .empty rest) s)
    (hget : s.chain.app.spaces.map[id]? = some space)
    (hmsg : spaceOf s.chain.app msg = some id) (ctx : Context) (approvers : List Approver) :
    ∃ rule e mentions b, AnyOwnerRule = .ok rule ∧
      k.keeper.preprocessRule ctx msg rule s.chain = .ok (e, mentions) ∧
      { rule with expression := e }.Eval (ApproversEnv approvers) = .ok b ∧
      (b = true ↔ ∃ owner ∈ space.owners, ∃ a ∈ approvers, a.address = owner) := by
  obtain ⟨mentions, hpre⟩ := preprocessRule_anyOwner k ctx hmsg hget
  have haddresses := (leads_owned h).2.addresses id space hget
  have heval := Eval_anyOwner_eq approvers fun owner howner =>
    hb.builtins_none (haddresses owner howner)
  refine ⟨anyOwner, _, mentions, _, AnyOwnerRule_eq, hpre, Rule.Eval_eq_ok.2 heval, ?_⟩
  simp only [List.any_eq_true, decide_eq_true_eq]

open Tally in
theorem localBech32_separated : Separated localBech32 := by
  intro name a h
  have hall : accounts.all (fun account => account.1.contains 49) = true := by decide
  have hmem := List.all_eq_true.1 hall _ (localBech32_eq_some h)
  exact List.contains_iff_mem.1 hmem

open Local Tally in
/-- The request for a key of a space of two owners, approved by the second. -/
theorem leads_anyOwner_second :
    let s := app.keeper.run [newSpace, newAction (.addSpaceOwner ⟨actAccount, 1, bob⟩)]
      (Keeper.genesis State.empty [])
    let msg : Msg Empty := .newKeyRequest ⟨actAccount, 1, 1, .ecdsaSecp256k1, 0⟩
    ∃ space : Space, s.chain.app.spaces.map[1]? = some space ∧ space.owners = [alice, bob] ∧
      ∃ rule e mentions b, AnyOwnerRule = .ok rule ∧
        app.keeper.preprocessRule .background msg rule s.chain = .ok (e, mentions) ∧
        { rule with expression := e }.Eval (ApproversEnv [⟨bob, 0⟩]) = .ok b ∧
        (b = true ↔ ∃ owner ∈ space.owners, ∃ a ∈ [(⟨bob, 0⟩ : Approver)], a.address = owner) :=
  ⟨_, rfl, rfl, leads_anyOwner localBech32_separated (app.keeper.run_leads _ _) rfl rfl .background
    [⟨bob, 0⟩]⟩

end WardenProtocol.Warden
