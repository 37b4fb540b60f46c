import WardenProtocol.Act.Terms
import WardenProtocol.Warden.Authorisation

namespace WardenProtocol.Warden
open Act Shield Repo Foundation Std
set_option autoImplicit true

/-- What one run of an analyzer answered. -/
structure AnalyzerRun where
  contract : GoString
  dataForSigning : Option GoString
  values : List (GoString × Expression)

namespace AnalyzerRun

/-- What the runs want to be signed. -/
def data (runs : List AnalyzerRun) : List GoString := runs.filterMap dataForSigning

/-- The last run of the analyzer that has the name. -/
def last (runs : List AnalyzerRun) (contract : GoString) : Option AnalyzerRun :=
  runs.reverse.find? fun run => run.contract = contract

/-- The value the last run of an analyzer gave to a key. -/
def value (runs : List AnalyzerRun) (contract key : GoString) : Option Expression :=
  (last runs contract).bind fun run => lookup run.values key

theorem lookup_runs (runs : List AnalyzerRun) (contract : GoString) :
    lookup (runs.map fun run => (run.contract, run.values)).reverse contract =
      (last runs contract).map values := by
  rw [lookup, ← List.map_reverse, List.find?_map, Option.map_map]
  rfl

end AnalyzerRun

/-- `warden.analyzers.<contract>.<key>`. -/
def analyzerName (contract key : GoString) : GoString :=
  str "warden.analyzers." ++ contract ++ str "." ++ key

theorem splitDot_append {a b : GoString} (h : 46 ∉ a) : splitDot (a ++ 46 :: b) = (a, some b) := by
  have hpos : ∀ x ∈ a, (decide (x ≠ 46)) = true := by
    intro x hx
    apply decide_eq_true
    rintro rfl
    exact h hx
  have htake : (a ++ 46 :: b).takeWhile (fun x => decide (x ≠ 46)) = a := by
    rw [List.takeWhile_append_of_pos hpos]
    simp
  have hdrop : (a ++ 46 :: b).dropWhile (fun x => decide (x ≠ 46)) = 46 :: b := by
    rw [List.dropWhile_append_of_pos hpos]
    simp
  rw [splitDot, hdrop, htake]

/-- The name of a value of an analyzer stands for the value of its last run, if it has one. -/
theorem expand_analyzerName {c : Chain O X} {runs : List AnalyzerRun} {ctx : Context}
    (hctx : analyzerValues ctx = (runs.map fun run => (run.contract, run.values)).reverse)
    (msg : Msg X) {ident : Identifier} (hdot : 46 ∉ contract)
    (hname : ident.value = analyzerName contract key) :
    App.expand ctx msg c ident = .ok ((AnalyzerRun.value runs contract key).getD
      (.identifier (NewIdent (str "analyzers." ++ contract ++ str "." ++ key)))) := by
  have hrest : ident.value = str "warden" ++ 46 ::
      (str "analyzers." ++ (contract ++ 46 :: key)) := by
    rw [hname, analyzerName, List.append_assoc, List.append_assoc]
    rfl
  have hpath : path ident.value =
      (str "warden", str "analyzers." ++ (contract ++ 46 :: key)) := by
    rw [path, hrest, splitDot_append (by decide)]
  have hprefix : hasPrefix (str "analyzers." ++ (contract ++ 46 :: key)) (str "analyzers.") =
      true := List.isPrefixOf_iff_prefix.2 (List.prefix_append _ _)
  have hdrop : (str "analyzers." ++ (contract ++ 46 :: key)).drop 10 = contract ++ 46 :: key := rfl
  have hshow : str "analyzers." ++ contract ++ str "." ++ key =
      str "analyzers." ++ (contract ++ 46 :: key) := by
    rw [List.append_assoc, List.append_assoc]
    rfl
  simp only [App.expand, hpath, App.wardenExpand, NewIdent, hprefix, App.expandAnalyzers, hdrop,
    splitDot_append hdot, hctx, AnalyzerRun.lookup_runs, AnalyzerRun.value, hshow]
  rw [if_neg (by decide), if_neg (by simp), if_pos trivial]
  cases AnalyzerRun.last runs contract with
  | none => rfl
  | some run =>
    simp only [Option.map_some, Option.bind_some]
    cases lookup run.values key <;> rfl

/-- A host of rule providers. -/
abbrev ProviderHost (O X : Type) :=
  Host (Store O X) (Chain O X) (O → O) (Act.AccAddress × Act.Msg (Msg X)) Fault

namespace App
variable {O X : Type} (k : App O X) (host : ProviderHost O X)

/-- The analyzers ran one after the other, each on the input, and answered. -/
inductive Analyzed (caller : Act.AccAddress) (input : GoString) :
    List AnalyzerRun → Store O X → Store O X → Prop
  | nil (s : Store O X) : Analyzed caller input [] s s
  | cons {run : AnalyzerRun} {s s₁ s' : Store O X}
      (haddr : k.bech32.AccAddressFromBech32 run.contract = some addr)
      (hcode : k.contract addr = some code)
      (hrun : ((code caller (k.marshalAnalyzerMsg input)).mapSend fun m => (addr, m)).run host s =
        .ok (bz, s₁))
      (hanswer : k.parseAnalyzerValues bz = .ok (run.dataForSigning, run.values))
      (h : Analyzed caller input runs s₁ s') : Analyzed caller input (run :: runs) s s'

variable {k host}

theorem MustAccAddressFromBech32_eq_ok {b : Bech32} :
    MustAccAddressFromBech32 b s = .ok a ↔ b.AccAddressFromBech32 s = some a := by
  rw [MustAccAddressFromBech32]
  cases b.AccAddressFromBech32 s <;> simp

theorem run_lift_eq_ok {x : Except Fault α} {s s' : Store O X} :
    (Program.lift x : Provider O X α).run host s = .ok (a, s') ↔ x = .ok a ∧ s = s' := by
  rw [Program.run_lift, bind_eq_ok]
  constructor
  · rintro ⟨a', hx, h⟩
    cases h
    exact ⟨hx, rfl⟩
  · rintro ⟨hx, rfl⟩
    exact ⟨a, hx, rfl⟩

/-- One round runs the analyzer on the input, and fails if its data are not the first. -/
theorem executeAnalyzersStep_eq_ok {acc acc' : AnalyzerValues × Option GoString}
    {contract : GoString} {s s' : Store O X}
    (h : (k.executeAnalyzersStep caller input acc contract).run host s = .ok (acc', s')) :
    ∃ (addr : Act.AccAddress) (code : Contract State O (Msg X) Response) (bz : GoString)
      (run : AnalyzerRun), run.contract = contract ∧
      k.bech32.AccAddressFromBech32 run.contract = some addr ∧ k.contract addr = some code ∧
      ((code caller (k.marshalAnalyzerMsg input)).mapSend fun m => (addr, m)).run host s =
        .ok (bz, s') ∧
      k.parseAnalyzerValues bz = .ok (run.dataForSigning, run.values) ∧
      acc'.1 = (run.contract, run.values) :: acc.1 ∧
      acc'.2.toList = acc.2.toList ++ run.dataForSigning.toList := by
  obtain ⟨addr, s₁, hlift, h⟩ := Program.run_bind_eq_ok.1 h
  obtain ⟨haddr, rfl⟩ := run_lift_eq_ok.1 hlift
  rw [MustAccAddressFromBech32_eq_ok] at haddr
  obtain ⟨⟨dfs, vals⟩, s₂, hanalyzer, h⟩ := Program.run_bind_eq_ok.1 h
  obtain ⟨bz, s₃, hrun, hlift⟩ := Program.run_bind_eq_ok.1 hanalyzer
  obtain ⟨hanswer, rfl⟩ := run_lift_eq_ok.1 hlift
  cases hcode : k.contract addr with
  | none =>
    simp only [executeContract, hcode] at hrun
    cases hrun
  | some code =>
    simp only [executeContract, hcode] at hrun
    rw [Program.run_mapFail_eq_ok] at hrun
    dsimp only at h
    split at h
    · cases h
    · rename_i hfirst
      cases h
      refine ⟨addr, code, bz, ⟨contract, dfs, vals⟩, rfl, haddr, hcode, hrun, hanswer, rfl, ?_⟩
      cases dfs with
      | none => simp
      | some data =>
        cases hacc : acc.2 with
        | none => rfl
        | some data' =>
          rw [hacc] at hfirst
          exact absurd ⟨rfl, rfl⟩ hfirst

/-- The loop runs the analyzers in their order, and collects what they answered. -/
theorem foldlM_analyzed {contracts : List GoString} {acc acc' : AnalyzerValues × Option GoString}
    {s s' : Store O X}
    (h : (contracts.foldlM (k.executeAnalyzersStep caller input) acc).run host s =
      .ok (acc', s')) :
    ∃ runs, runs.map AnalyzerRun.contract = contracts ∧
      k.Analyzed host caller input runs s s' ∧
      acc'.1 = (runs.map fun run => (run.contract, run.values)).reverse ++ acc.1 ∧
      acc'.2.toList = acc.2.toList ++ AnalyzerRun.data runs := by
  induction contracts generalizing acc s with
  | nil =>
    cases h
    exact ⟨[], rfl, .nil _, rfl, (List.append_nil _).symm⟩
  | cons contract contracts ih =>
    rw [List.foldlM_cons] at h
    obtain ⟨acc₁, s₁, hstep, hfold⟩ := Program.run_bind_eq_ok.1 h
    obtain ⟨addr, code, bz, run, rfl, haddr, hcode, hrun, hanswer, hvals, hdata⟩ :=
      executeAnalyzersStep_eq_ok hstep
    obtain ⟨runs, rfl, hruns, hvals', hdata'⟩ := ih hfold
    refine ⟨run :: runs, rfl, .cons haddr hcode hrun hanswer hruns, ?_, ?_⟩
    · rw [hvals', hvals]
      simp
    · rw [hdata', hdata, AnalyzerRun.data, AnalyzerRun.data, List.filterMap_cons,
        List.append_assoc]
      cases run.dataForSigning <;> rfl

/-- The rule of a key, and the message with the data that one of the analyzers returned. -/
theorem newSignRequestRule_eq_ok {ctx : Context} {msg wrapped : MsgNewSignRequest}
    {c : { c : Context // c.Extends ctx }} {s s' : Store O X}
    (h : (k.newSignRequestRule ctx msg).run host s = .ok ((c, rule, wrapped), s'))
    (hview : host.view = Store.chain) : ∃ caller runs,
      k.bech32.AccAddressFromBech32 (GetActionCreator ctx) = some caller ∧
      runs.map AnalyzerRun.contract = msg.analyzers ∧
      k.Analyzed host caller msg.input runs s s' ∧
      analyzerValues c = (runs.map fun run => (run.contract, run.values)).reverse ∧
      (AnalyzerRun.data runs).length ≤ 1 ∧
      wrapped = { msg with input := (AnalyzerRun.data runs).head?.getD msg.input } ∧
      keyRule msg.keyId s.chain = .ok rule := by
  obtain ⟨chain, s₁, hlook, h⟩ := Program.run_bind_eq_ok.1 h
  cases hlook
  obtain ⟨rule', s₂, hlift, h⟩ := Program.run_bind_eq_ok.1 h
  obtain ⟨hrule, rfl⟩ := run_lift_eq_ok.1 hlift
  rw [hview] at hrule
  obtain ⟨⟨c', data⟩, s₃, hrun, h⟩ := Program.run_bind_eq_ok.1 h
  rw [Program.run_mapFail_eq_ok] at hrun
  cases h
  obtain ⟨sdkCtx, s₄, hlift, hrun⟩ := Program.run_bind_eq_ok.1 hrun
  obtain ⟨-, rfl⟩ := run_lift_eq_ok.1 hlift
  obtain ⟨caller, s₅, hlift, hrun⟩ := Program.run_bind_eq_ok.1 hrun
  obtain ⟨hcaller, rfl⟩ := run_lift_eq_ok.1 hlift
  rw [MustAccAddressFromBech32_eq_ok] at hcaller
  obtain ⟨⟨vals, data'⟩, s₆, hfold, hrun⟩ := Program.run_bind_eq_ok.1 hrun
  cases hrun
  obtain ⟨runs, hcontracts, hruns, hvals, hdata⟩ := foldlM_analyzed hfold
  rw [List.append_nil] at hvals
  rw [Option.toList_none, List.nil_append] at hdata
  refine ⟨caller, runs, hcaller, hcontracts, hruns, hvals, ?_, ?_, hrule⟩
  · rw [← hdata]
    cases data <;> simp
  · rw [← hdata]
    cases data <;> rfl

theorem TryExecuteAction_sameTerms {ctx : Context} {act act' : Action (Msg X) Response}
    {s s' : Store O X} (hctx : UnwrapSDKContext ctx = .ok sdkCtx)
    (h : k.keeper.TryExecuteAction ctx act s = .ok (act', s')) : act'.SameTerms act := by
  obtain ⟨-, hexec⟩ | ⟨-, rfl, -⟩ := Keeper.TryExecuteAction_eq_ok h
  · obtain ⟨x, hx⟩ := Keeper.executeAction_spec hctx hexec
    have hterms := hx.outcome.sameTerms
    rw [hx.action] at hterms
    exact hterms
  · exact .refl act'

end App

/-- The action that a request for a signature was made to. -/
structure Analysed {O X : Type} (k : App O X) (host : ProviderHost O X) (creator : GoString)
    (msg : MsgNewSignRequest) (s : Store O X) (act : Action (Msg X) Response)
    (runs : List AnalyzerRun) : Prop where
  /-- The analyzers of the message ran, each on the input of the message. -/
  ran : ∃ caller s', k.bech32.AccAddressFromBech32 creator = some caller ∧
    k.Analyzed host caller msg.input runs s s'
  contracts : runs.map AnalyzerRun.contract = msg.analyzers
  once : (AnalyzerRun.data runs).length ≤ 1
  /-- The message that was wrapped has the data that one of them returned, if one did. -/
  wrapped : act.msg =
    .known (.newSignRequest { msg with input := (AnalyzerRun.data runs).head?.getD msg.input })
  /-- The rule of the key was expanded, the names of analyzers with the values of their last
  runs. -/
  expanded : ∃ rule expander, App.keyRule msg.keyId s.chain = .ok rule ∧
    Preprocess expander rule.expression = .ok act.rule.expression ∧
    ∀ contract key ident, 46 ∉ contract → ident.value = analyzerName contract key →
      expander ident = .ok ((AnalyzerRun.value runs contract key).getD
        (.identifier (NewIdent (str "analyzers." ++ contract ++ str "." ++ key))))

theorem AddAction_analysed {k : App O X}
    {deliver : Act.Msg (Msg X) → Store O X → Except Fault (Store O X)} {ctx : Context}
    {s s' : Store O X} {act : Action (Msg X) Response}
    (h : k.keeper.AddAction (k.keeper.host deliver) ctx creator (.newSignRequest msg)
      timeoutHeight s = .ok (act, s')) :
    s'.action? act.id = some act ∧
      ∃ runs, Analysed k (k.keeper.host deliver) creator msg s act runs := by
  obtain ⟨fn, c, rule, wrapped, s₁, expression, mentions, sdkCtx, act₀, act₁, state, -, hfn, hrun,
    hpre, hctx, rfl, hnew, h⟩ := Keeper.AddAction_eq_ok h
  cases hfn
  obtain ⟨⟨c', rule', wrapped'⟩, s₂, hprovider, hret⟩ := Program.run_bind_eq_ok.1 hrun
  cases hret
  obtain ⟨caller, runs, hcaller, hcontracts, hruns, hvals, honce, hwrapped, hrule⟩ :=
    App.newSignRequestRule_eq_ok hprovider rfl
  obtain ⟨hstored, -, -⟩ := Keeper.TryExecuteAction_stored hctx (Keeper.newAction_get hnew) h
  have hterms := App.TryExecuteAction_sameTerms hctx h
  obtain ⟨rfl, -, -⟩ := Keeper.newAction_eq_ok hnew
  obtain ⟨root, hroot, hpre⟩ := bind_eq_ok.1 hpre
  obtain ⟨m, -, hpre⟩ := bind_eq_ok.1 hpre
  cases hpre
  refine ⟨hstored, runs, ⟨caller, s₁, hcaller, hruns⟩, hcontracts, honce, ?_, rule,
    App.expand c (.newSignRequest wrapped') s₁.chain, hrule, ?_, ?_⟩
  · rw [← hwrapped]
    exact hterms.msg
  · rw [hterms.rule]
    exact hroot
  · intro contract key ident hdot hname
    exact expand_analyzerName hvals _ hdot hname

namespace Local
open Tally

/-- The account of an analyzer, which returns its input with a byte more. -/
def analyst : Act.AccAddress := (localBech32.AccAddressFromBech32 carol).getD []

theorem analyst_ne : analyst ≠ app.moduleAccount := by decide

def analyzerApp : App Ledger Empty :=
  { app with
    contract := fun a => if a = analyst then some fun _ input => .ret (input ++ [0]) else none
    contract_moduleAccount := if_neg analyst_ne.symm
    unmarshalAnalyzerRes := fun bz => .ok ⟨some bz, [(str "ok", .bool true)]⟩ }

/-- A space of `alice` with a key. -/
def withKey : Store Ledger Empty :=
  ⟨⟨⟨.empty, ∅, .empty⟩, { State.empty with
    spaces := ⟨(∅ : ExtTreeMap Nat Space).insert 1 ⟨1, alice, [alice], 0, 0⟩, 2⟩
    keys := (∅ : ExtTreeMap Nat Key).insert 1 ⟨1, 1, 1, .ecdsaSecp256k1, [], 0⟩ }, []⟩, []⟩

/-- The inputs of the requests that are stored when `bob` asks for a signature of the byte 7. -/
def storedInput (analyzers : List GoString) : Option GoString :=
  match analyzerApp.keeper.AddAction (analyzerApp.keeper.host fun _ s => .ok s)
    (SdkContext.toContext ⟨.background, header 1⟩) bob
    (.newSignRequest ⟨actAccount, 1, [7], analyzers, []⟩) 0 withKey with
  | .ok (⟨_, _, _, .known (.newSignRequest msg), _, _, _, _, _, _, _⟩, _) => some msg.input
  | _ => none

example : storedInput [] = some [7] ∧ storedInput [carol] = some [7, 0] ∧
    storedInput [carol, carol] = none := by
  decide

end Local

end WardenProtocol.Warden
