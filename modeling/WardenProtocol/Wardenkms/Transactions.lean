import WardenProtocol.Warden.Analyzers
import WardenProtocol.Wardenkms.Custody

namespace WardenProtocol.Wardenkms
open Act Foundation Warden Relation
set_option autoImplicit true

section
variable {O X P K : Type} {k : App O X} {c : Crypto P} {e : KeychainSdk.Ecies K}
  {kms : Bip44Keychain} {keychainId : Nat}

/-- An action with the message neither calls contracts when it is created nor answers requests. -/
def Silent (k : App O X) (msg : Warden.Msg X) : Prop :=
  ∀ fn, k.RegisterRules msg = some fn → ∀ deliver ctx s r s',
    (fn ctx msg).run (k.keeper.host deliver) s = .ok (r, s') →
    s' = s ∧ ∀ app, answeredKeychain app r.2.2 = none

theorem silent_newKeyRequest (msg : MsgNewKeyRequest) : Silent k (.newKeyRequest msg) := by
  intro fn hfn deliver ctx s r s' hrun
  cases hfn
  obtain ⟨chain, s₁, hlook, hrun⟩ := Program.run_bind_eq_ok.1 hrun
  cases hlook
  obtain ⟨rule, s₂, hlift, hrun⟩ := Program.run_bind_eq_ok.1 hrun
  obtain ⟨-, rfl⟩ := App.run_lift_eq_ok.1 hlift
  cases hrun
  exact ⟨rfl, fun _ => rfl⟩

theorem silent_newSignRequest (msg : MsgNewSignRequest) (hnone : msg.analyzers = []) :
    Silent k (.newSignRequest msg) := by
  intro fn hfn deliver ctx s r s' hrun
  cases hfn
  obtain ⟨⟨c', rule, wrapped⟩, s₁, hprovider, hret⟩ := Program.run_bind_eq_ok.1 hrun
  cases hret
  obtain ⟨caller, runs, -, hcontracts, hruns, -⟩ := App.newSignRequestRule_eq_ok hprovider rfl
  rw [hnone, List.map_eq_nil_iff] at hcontracts
  subst hcontracts
  cases hruns
  exact ⟨rfl, fun _ => rfl⟩

namespace Node
variable {n : Node O X}

theorem runs {calls : List (Call State O (Warden.Msg X) Response)} {s s' : Warden.Store O X}
    (h : Runs k.keeper.Step s calls s') {n : Node O X} (hn : n.chain = s)
    (hsent : ∀ call ∈ calls, Sent keychainId n.written call) :
    ReflTransGen (Step k c e kms keychainId) n { n with chain := s' } := by
  induction h generalizing n with
  | refl =>
    cases hn
    exact .refl
  | next hstep hlast ih =>
    cases hn
    rename_i s₁ ls' s''
    have hfirst : Step k c e kms keychainId n { n with chain := s₁ } := by
      apply Step.chain hstep
      intro call hcall
      exact hsent call (List.mem_append_left _ hcall)
    have hrest : ReflTransGen (Step k c e kms keychainId) { n with chain := s₁ }
        { n with chain := s'' } := by
      apply ih (n := { n with chain := s₁ }) rfl
      intro call hcall
      exact hsent call (List.mem_append_right _ hcall)
    exact hrest.head hfirst

theorem deliverTx_other (n : Node O X) (header : Header) (gas : Nat) (msg : Warden.Msg X)
    (hsent : answeredKeychain n.app msg = some keychainId →
      ∃ m ∈ n.written, ∃ creator, msg = txMsg creator m) :
    ReflTransGen (Step k c e kms keychainId) n
      { n with chain := k.keeper.deliverTx ⟨header, gas + 1, .other msg⟩ n.chain } := by
  rw [Keeper.deliverTx]
  split
  · exact .refl
  · split
    · rename_i s' h
      apply ReflTransGen.single
      apply Step.chain (.handle h)
      intro call hcall
      rw [List.mem_singleton.1 hcall]
      exact hsent
    · exact .refl

theorem deliverTx_newAction (n : Node O X) (header : Header) (gas : Nat) (creator : GoString)
    {msg : Warden.Msg X} (timeoutHeight : UInt64) (hsilent : Silent k msg) :
    ReflTransGen (Step k c e kms keychainId) n { n with
      chain := k.keeper.deliverTx
        ⟨header, gas + 1, .newAction creator (.known msg) timeoutHeight⟩ n.chain } := by
  rw [Keeper.deliverTx]
  split
  · exact .refl
  · split
    · rename_i s' h
      obtain ⟨⟨r, s₁⟩, h, hs⟩ := bind_eq_ok.1 h
      cases hs
      obtain ⟨msg', hmsg, h⟩ := bind_eq_ok.1 h
      cases hmsg
      obtain ⟨⟨act, s₁⟩, hadd, h⟩ := bind_eq_ok.1 h
      cases h
      obtain ⟨fn, c', rule, wrapped, s₂, expression, mentions, sdkCtx, act₀, act₁, state, -, hfn,
        hrun, -, hctx, rfl, hnew, h⟩ := Keeper.AddAction_eq_ok hadd
      obtain ⟨rfl, hanswers⟩ := hsilent fn hfn _ _ _ _ _ hrun
      generalize hs₃ : Store.record (Store.withAct _ state) _ = s₃ at h
      have hcreate : k.keeper.Step n.chain [] s₃ := by
        rw [← hs₃]
        exact .create rfl rfl hnew
      have hget : s₃.action? act₁.id = some act₁ := by
        rw [← hs₃]
        exact Keeper.newAction_get hnew
      obtain ⟨rfl, -, -⟩ := Keeper.newAction_eq_ok hnew
      have hnone : ∀ call ∈ ([] : List (Call State O (Warden.Msg X) Response)),
          Sent keychainId n.written call := by
        intro call hcall
        cases hcall
      have hsteps : ∃ calls, Runs k.keeper.Step n.chain calls s₁ ∧
          ∀ call ∈ calls, Sent keychainId n.written call := by
        obtain ⟨hready, hexec⟩ | ⟨-, -, rfl⟩ := Keeper.TryExecuteAction_eq_ok h
        · obtain ⟨x, hx⟩ := Keeper.executeAction_spec hctx hexec
          refine ⟨_, .next hcreate (.single (.execute hget rfl hready hx)), ?_⟩
          intro call hcall
          rw [List.nil_append, Execution.calls] at hcall
          split at hcall
          · rw [List.mem_singleton.1 hcall]
            intro hkeychain
            rw [← Any.known.inj hx.msg, hanswers] at hkeychain
            cases hkeychain
          · cases hcall
        · exact ⟨_, .single hcreate, hnone⟩
      obtain ⟨calls, hruns, hsent⟩ := hsteps
      exact (runs hruns rfl hsent).tail (.chain (.keep rfl rfl) hnone)
    · exact .refl

end Node

end

end WardenProtocol.Wardenkms
