import WardenProtocol.Act.Accounts
import WardenProtocol.Shield.Threshold
import WardenProtocol.Warden.Genesis
import WardenProtocol.Warden.Writes

namespace WardenProtocol.Warden
open Act Shield Repo Foundation Std
set_option autoImplicit true

variable {O X : Type} {k : App O X} {rest : O} {s : Store O X}

namespace State
variable {s : State} {b : Bech32}

/-- The query for the spaces of an account lists each space with such an owner, once. -/
theorem Owned.spacesByOwner (hs : s.Coherent) (ho : s.Owned b)
    (ha : b.AccAddressFromBech32 owner = some a) :
    ∃ spaces, s.SpacesByOwner b owner = .ok spaces ∧ (spaces.map Space.id).Nodup ∧
      ∀ space, space ∈ spaces ↔ s.spaces.map[space.id]? = some space ∧
        ∃ owner' ∈ space.owners, b.AccAddressFromBech32 owner' = some a := by
  have hne : owner ≠ [] := by
    intro hnil
    rw [hnil, b.AccAddressFromBech32_nil] at ha
    cases ha
  have hkeys (key : Act.AccAddress × Nat) :
      key ∈ s.spacesByOwner.keys.filter (fun key => key.1 = a) ↔
        key.1 = a ∧ (a, key.2) ∈ s.spacesByOwner := by
    rw [List.mem_filter, ExtTreeMap.mem_keys, decide_eq_true_iff]
    constructor
    · rintro ⟨hmem, rfl⟩
      exact ⟨rfl, hmem⟩
    · rintro ⟨rfl, hmem⟩
      exact ⟨hmem, rfl⟩
  -- every entry of the index leads to a stored space
  have hstored : ∀ key ∈ s.spacesByOwner.keys.filter (fun key => key.1 = a),
      ∃ space, s.spaces.Get key.2 = .ok space ∧ space.id = key.2 := by
    intro key hkey
    obtain ⟨space, hget, -⟩ := (ho.byOwner a key.2).1 ((hkeys key).1 hkey).2
    exact ⟨space, SeqCollection.Get_eq_ok.2 hget, hs.spaces.id_eq _ _ hget⟩
  obtain ⟨spaces, hspaces, hids⟩ := mapM_ok hstored
  refine ⟨spaces, ?_, ?_, ?_⟩
  · simp only [SpacesByOwner, if_neg hne, ha]
    exact hspaces
  · rw [hids]
    apply List.Nodup.map_on _ (ExtTreeMap.nodup_keys.filter _)
    intro key hkey key' hkey' heq
    exact Prod.ext (((hkeys key).1 hkey).1.trans ((hkeys key').1 hkey').1.symm) heq
  · intro space
    rw [mapM_except hspaces]
    constructor
    · rintro ⟨key, hkey, hget⟩
      rw [SeqCollection.Get_eq_ok] at hget
      obtain ⟨space', hget', howner⟩ := (ho.byOwner a key.2).1 ((hkeys key).1 hkey).2
      cases hget.symm.trans hget'
      rw [hs.spaces.id_eq _ _ hget]
      exact ⟨hget, howner⟩
    · rintro ⟨hget, howner⟩
      have hmem := (ho.byOwner a space.id).2 ⟨space, hget, howner⟩
      exact ⟨(a, space.id), (hkeys _).2 ⟨rfl, hmem⟩, SeqCollection.Get_eq_ok.2 hget⟩

theorem decodeAddresses_ok (b : Bech32) (owners : List GoString)
    (h : ∀ owner ∈ owners, (b.AccAddressFromBech32 owner).isSome) :
    ∃ addrs, owners.mapM (decodeAddress b) = .ok addrs := by
  have hdecodes : ∀ owner ∈ owners, ∃ a, decodeAddress b owner = .ok a ∧
      (fun _ : Act.AccAddress => ()) a = (fun _ : GoString => ()) owner := by
    intro owner howner
    obtain ⟨a, ha⟩ := Option.isSome_iff_exists.1 (h owner howner)
    exact ⟨a, decodeAddress_eq_ok.2 ha, rfl⟩
  obtain ⟨addrs, haddrs, -⟩ := mapM_ok hdecodes
  exact ⟨addrs, haddrs⟩

theorem Owned.setSpace_ok (hs : s.Coherent) (ho : s.Owned b) {id : Nat} {space space' : Space}
    (hget : s.spaces.map[id]? = some space) (hid : space'.id = space.id)
    (howners : space'.owners ⊆ space.owners) :
    ∃ s', s.setSpace b space' = .ok s' ∧ s'.spaces.map[id]? = some space' := by
  have hspace : space'.id = id := hid.trans (hs.spaces.id_eq _ _ hget)
  have haddresses := ho.addresses id space hget
  have hne : id ≠ 0 := Nat.pos_iff_ne_zero.1 (hs.spaces.bounded id space hget).1
  obtain ⟨removed, hremoved⟩ :=
    decodeAddresses_ok b (subtract space.owners space'.owners)
      fun owner howner => haddresses owner (List.mem_filter.1 howner).1
  obtain ⟨addrs, haddrs⟩ :=
    decodeAddresses_ok b space'.owners fun owner howner => haddresses owner (howners howner)
  have hset : s.spaces.Set id space' = .ok { s.spaces with map := s.spaces.map.insert id space' } :=
    SeqCollection.Set_eq_ok.2 ⟨hne, rfl⟩
  have hok : ∃ s', s.setSpace b space' = .ok s' := by
    rw [setSpace, updateSpaceOwners, hspace, hget, if_neg hne, Option.map_some, Option.getD_some,
      hremoved, haddrs]
    simp only [ok_bind, hset]
    exact ⟨_, rfl⟩
  obtain ⟨s', hs'⟩ := hok
  obtain ⟨index, spaces, hstored, rfl⟩ := setSpace_eq_ok hs'
  refine ⟨_, hs', ?_⟩
  rw [SeqCollection.Set_put hstored hspace, if_pos rfl]

end State

theorem RemoveSpaceOwner_ok {c : Chain O X} {id : Nat} {space : Space}
    (hs : c.app.Coherent) (ho : c.app.Owned k.bech32)
    (hget : c.app.spaces.map[id]? = some space) (howner : owner ∈ space.owners) :
    ∃ s' res, k.RemoveSpaceOwner ⟨k.actAuthority, id, owner⟩ c = .ok ((s', c.rest), res) ∧
      s'.spaces.map[id]? = some (space.RemoveOwner owner) := by
  have hwrite : ∃ s', c.app.setSpace k.bech32 (space.RemoveOwner owner) = .ok s' ∧
      s'.spaces.map[id]? = some (space.RemoveOwner owner) :=
    ho.setSpace_ok hs hget rfl List.erase_subset
  obtain ⟨s', hset, hget'⟩ := hwrite
  have hauthority : k.assertActAuthority k.actAuthority = .ok () := by
    rw [App.assertActAuthority, if_neg fun h => h rfl]
  have hmember : space.IsOwner owner = true := List.contains_iff_mem.2 howner
  simp only [App.RemoveSpaceOwner, hauthority, SeqCollection.Get_eq_ok.2 hget, ok_bind, hmember,
    hset]
  exact ⟨s', _, rfl, hget'⟩

theorem leads_owned (h : k.keeper.Leads (Keeper.genesis .empty rest) s) :
    s.chain.app.Coherent ∧ s.chain.app.Owned k.bech32 := by
  apply App.leads_state (P := fun s => s.Coherent ∧ s.Owned k.bech32)
    ⟨State.coherent_empty, State.owned_empty _⟩ _ h
  rintro s s' events hchange ⟨hs, ho⟩
  exact ⟨hchange.coherent hs, hchange.owned hs ho⟩

/-- Wherever the handlers lead from the empty state, in any order: the index by owner is that of
the accounts that the owners of the stored spaces decode to, so that the query lists the spaces
that the account owns, each once. -/
theorem leads_spacesByOwner (h : k.keeper.Leads (Keeper.genesis .empty rest) s) :
    (∀ (a : Act.AccAddress) (id : Nat), (a, id) ∈ s.chain.app.spacesByOwner ↔
      ∃ space : Space, s.chain.app.spaces.map[id]? = some space ∧
        ∃ owner ∈ space.owners, k.bech32.AccAddressFromBech32 owner = some a) ∧
    ∀ owner a, k.bech32.AccAddressFromBech32 owner = some a →
      ∃ spaces, s.chain.app.SpacesByOwner k.bech32 owner = .ok spaces ∧
        (spaces.map Space.id).Nodup ∧
        ∀ space, space ∈ spaces ↔ s.chain.app.spaces.map[space.id]? = some space ∧
          ∃ owner' ∈ space.owners, k.bech32.AccAddressFromBech32 owner' = some a := by
  obtain ⟨hs, ho⟩ := leads_owned h
  exact ⟨ho.byOwner, fun owner a ha => ho.spacesByOwner hs ha⟩

open Local Tally in
/-- Two owners are added and one is removed. -/
theorem leads_spacesByOwner_run :
    let s := app.keeper.run [newSpace, newAction (.addSpaceOwner ⟨actAccount, 1, bob⟩),
      newAction (.addSpaceOwner ⟨actAccount, 1, carol⟩),
      newAction (.removeSpaceOwner ⟨actAccount, 1, bob⟩)] (Keeper.genesis State.empty [])
    (s.chain.app.spaces.map[1]?).map Space.owners = some [alice, carol] ∧
    (∀ (a : Act.AccAddress) (id : Nat), (a, id) ∈ s.chain.app.spacesByOwner ↔
      ∃ space : Space, s.chain.app.spaces.map[id]? = some space ∧
        ∃ owner ∈ space.owners, app.bech32.AccAddressFromBech32 owner = some a) ∧
    ∀ owner a, app.bech32.AccAddressFromBech32 owner = some a →
      ∃ spaces, s.chain.app.SpacesByOwner app.bech32 owner = .ok spaces ∧
        (spaces.map Space.id).Nodup ∧
        ∀ space, space ∈ spaces ↔ s.chain.app.spaces.map[space.id]? = some space ∧
          ∃ owner' ∈ space.owners, app.bech32.AccAddressFromBech32 owner' = some a :=
  ⟨by decide, leads_spacesByOwner (app.keeper.run_leads _ _)⟩

theorem evalExpressions_names {names : List GoString} (approvers : List Approver)
    (hnames : ∀ name ∈ names, builtins name = none) :
    evalExpressions (some (ApproversEnv approvers))
      (names.map fun name => .identifier ⟨noToken, name⟩) =
      .ok (names.map fun name => .boolean (approvers.any fun a => a.address = name)) := by
  induction names with
  | nil => rfl
  | cons name names ih =>
    rw [List.map_cons, evalExpressions, Eval,
      evalIdentifier_approvers approvers (hnames name List.mem_cons_self),
      ih fun name' hname' => hnames name' (List.mem_cons_of_mem _ hname')]
    rfl

/-- The default rule of a space stands for whether one of its owners has approved. -/
theorem Eval_anyOwner_eq {space : Space} (approvers : List Approver)
    (hnames : ∀ owner ∈ space.owners, builtins owner = none) :
    Shield.Eval (some (ApproversEnv approvers)) (anyOne (ownersArray space)) =
      .ok (.boolean (space.owners.any fun owner => approvers.any fun a => a.address = owner)) := by
  have hone : setString (str "1") = some 1 := by decide
  have hany : evalIdentifier (some (ApproversEnv approvers)) (str "any") = .builtin .any := rfl
  have hloop := anyLoop_of_pos Int.one_pos (space.owners.map fun owner =>
    approvers.any fun a => a.address = owner)
  rw [List.map_map] at hloop
  have heval : Shield.Eval (some (ApproversEnv approvers)) (anyOne (ownersArray space)) =
      .ok (anyLoop 1 (space.owners.map fun owner =>
        .boolean (approvers.any fun a => a.address = owner))) := by
    simp only [anyOne, ownersArray, Eval, evalExpressions, hone,
      evalExpressions_names approvers hnames, hany, ok_bind, applyFunction, Builtin.Fn, anyFn]
  rw [heval]
  change Except.ok (anyLoop 1 (space.owners.map (Object.boolean ∘ _))) = _
  rw [hloop, Except.ok.injEq, Object.boolean.injEq, ← Int.natCast_one, Bool.eq_iff_iff,
    decide_eq_true_eq, Int.ofNat_le, List.one_le_count_iff, List.mem_map, List.any_eq_true]

theorem Eval_anyOwner {space : Space} (approvers : List Approver)
    (hnames : ∀ owner ∈ space.owners, builtins owner = none) :
    Shield.Eval (some (ApproversEnv approvers)) (anyOne (ownersArray space)) =
      .ok (.boolean true) ↔ ∃ owner ∈ space.owners, IsApprover approvers owner := by
  rw [Eval_anyOwner_eq approvers hnames, Except.ok.injEq, Object.boolean.injEq]
  simp only [List.any_eq_true, decide_eq_true_eq, IsApprover]

/-- The call removes the only owner of the space. -/
def Empties (id : Nat) : Act.Call State O (Msg X) Response → Prop
  | .handle _ (.removeSpaceOwner msg) before _ => msg.spaceId = id ∧
      ∃ space, before.app.spaces.map[id]? = some space ∧ space.owners = [msg.owner]
  | _ => False

/-- The call makes an account an owner under two spellings. -/
def RespellsOwner (b : Bech32) : Act.Call State O (Msg X) Response → Prop
  | .handle _ (.newSpace msg) _ _ => ∃ x ∈ msg.creator :: msg.additionalOwners,
      ∃ y ∈ msg.creator :: msg.additionalOwners, x ≠ y ∧ b.SameAccount x y
  | .handle _ (.addSpaceOwner msg) before _ => ∃ space owner,
      before.app.spaces.map[msg.spaceId]? = some space ∧ owner ∈ space.owners ∧
      owner ≠ msg.newOwner ∧ b.SameAccount owner msg.newOwner
  | _ => False

/-- What the calls so far made of the owners of a space. -/
structure SpaceOwners (b : Bech32) (past : List (Act.Call State O (Msg X) Response)) (id : Nat)
    (space : Space) : Prop where
  nodup : space.owners.Nodup
  emptied : space.owners = [] → ∃ call ∈ past, Empties id call
  apart : (∀ call ∈ past, ¬ RespellsOwner b call) →
    space.owners.Pairwise fun x y => ¬ b.SameAccount x y

section
variable {b : Bech32} {past : List (Act.Call State O (Msg X) Response)} {id : Nat}
  {space : Space}

theorem SpaceOwners.append (h : SpaceOwners b past id space)
    (calls : List (Act.Call State O (Msg X) Response)) :
    SpaceOwners b (past ++ calls) id space := by
  refine ⟨h.nodup, ?_, ?_⟩
  · intro hnil
    obtain ⟨call, hcall, hempties⟩ := h.emptied hnil
    exact ⟨call, List.mem_append_left _ hcall, hempties⟩
  · intro hcalls
    exact h.apart fun call hcall => hcalls call (List.mem_append_left _ hcall)

theorem SpaceWrite.owners {c c' : Chain O X} (h : SpaceWrite c msg id space)
    (hold : ∀ old : Space, c.app.spaces.map[id]? = some old → SpaceOwners b past id old) :
    SpaceOwners b (past ++ [.handle ctx msg c c']) id space := by
  have hlast (hcalls : ∀ call ∈ past ++ [.handle ctx msg c c'], ¬ RespellsOwner b call) :
      ¬ RespellsOwner b (.handle ctx msg c c') ∧ ∀ call ∈ past, ¬ RespellsOwner b call :=
    ⟨hcalls _ (List.mem_append_right _ (List.mem_singleton_self _)),
      fun call hcall => hcalls call (List.mem_append_left _ hcall)⟩
  cases h with
  | new hnone hnodup =>
    refine ⟨hnodup, fun hnil => absurd hnil (List.cons_ne_nil _ _), ?_⟩
    intro hcalls
    apply hnodup.imp_of_mem
    intro x y hx hy hne hsame
    exact (hlast hcalls).1 ⟨x, hx, y, hy, hne, hsame⟩
  | @addOwner old msg hget hnew =>
    have howners := hold old hget
    have hne : old.owners ++ [msg.newOwner] ≠ [] :=
      List.append_ne_nil_of_right_ne_nil _ (List.cons_ne_nil _ _)
    refine ⟨?_, fun hnil => absurd hnil hne, ?_⟩
    · have hconcat := howners.nodup.concat hnew
      rw [List.concat_eq_append] at hconcat
      exact hconcat
    · intro hcalls
      apply List.pairwise_append.2 ⟨howners.apart (hlast hcalls).2, List.pairwise_singleton _ _, _⟩
      intro x hx y hy hsame
      cases List.mem_singleton.1 hy
      exact (hlast hcalls).1 ⟨old, x, hget, hx, fun heq => hnew (heq ▸ hx), hsame⟩
  | @removeOwner old msg hget howner =>
    have howners := hold old hget
    refine ⟨howners.nodup.erase _, ?_, ?_⟩
    · intro hnil
      rcases List.erase_eq_nil_iff.1 hnil with hnone | hsingle
      · rw [hnone] at howner
        cases howner
      · exact ⟨_, List.mem_append_right _ (List.mem_singleton_self _), rfl, old, hget, hsingle⟩
    · intro hcalls
      exact (howners.apart (hlast hcalls).2).sublist List.erase_sublist
  | @rules old msg hget hadmin hsign =>
    have howners := (hold old hget).append [.handle ctx (.updateSpace msg) c c']
    exact ⟨howners.nodup, howners.emptied, howners.apart⟩

end

theorem maintains_owners : k.keeper.Maintains fun past _ s => s.Coherent ∧ s.Owned k.bech32 ∧
    ∀ id space, s.spaces.map[id]? = some space → SpaceOwners k.bech32 past id space := by
  apply App.maintains
  · rintro past c header creator id ⟨hs, ho, howners⟩
    exact ⟨hs, ho, fun n space hget => (howners n space hget).append _⟩
  · rintro past ctx msg c c' res hhandle ⟨hs, ho, howners⟩
    have hchange := App.handle_change (F := fun _ => True) (fun _ _ _ _ _ _ _ _ => trivial) hhandle
    refine ⟨hchange.coherent hs, hchange.owned hs ho, ?_⟩
    intro id space hget
    rcases (App.handle_writes hs hhandle).spaces.get hget with hold | hwrite
    · exact (howners id space hold).append _
    · exact hwrite.owners (howners id)
  · exact fun _ h => h

/-- In every run the owners of a space are accounts, each listed under a string once; the list is
empty only after the only owner was removed, and every owner can be; the default rule of the space
is true exactly if one of the owners has approved, so that every owner can satisfy it. As long as
no owner is added under a second spelling, the owners are different accounts. -/
theorem runs_owners {calls : List (Act.Call State O (Msg X) Response)} {id : Nat} {space : Space}
    (h : Runs k.keeper.Step (Keeper.genesis .empty rest) calls s)
    (hnames : ∀ name, (builtins name).isSome → k.bech32.AccAddressFromBech32 name = none)
    (hget : s.chain.app.spaces.map[id]? = some space) :
    (∀ owner ∈ space.owners, (k.bech32.AccAddressFromBech32 owner).isSome) ∧
    space.owners.Nodup ∧
    (space.owners = [] → ∃ call ∈ calls, Empties id call) ∧
    (∀ owner ∈ space.owners, ∃ s' res,
      k.RemoveSpaceOwner ⟨k.actAuthority, id, owner⟩ s.chain = .ok ((s', s.chain.rest), res) ∧
      s'.spaces.map[id]? = some (space.RemoveOwner owner)) ∧
    (∀ approvers, Shield.Eval (some (ApproversEnv approvers)) (anyOne (ownersArray space)) =
      .ok (.boolean true) ↔ ∃ owner ∈ space.owners, IsApprover approvers owner) ∧
    ((∀ call ∈ calls, ¬ RespellsOwner k.bech32 call) →
      space.owners.Pairwise fun x y => ¬ k.bech32.SameAccount x y) := by
  obtain ⟨hs, ho, howners⟩ := maintains_owners.runs h ⟨State.coherent_empty,
    State.owned_empty _, fun id space hnone => by cases hnone⟩
  have hspace := howners id space hget
  have haddresses := ho.addresses id space hget
  refine ⟨haddresses, hspace.nodup, hspace.emptied, ?_, ?_, hspace.apart⟩
  · exact fun owner howner => RemoveSpaceOwner_ok hs ho hget howner
  intro approvers
  apply Eval_anyOwner
  intro owner howner
  have hsome := haddresses owner howner
  cases hbuiltin : builtins owner with
  | none => rfl
  | some fn =>
    rw [hnames owner (by rw [hbuiltin]; rfl)] at hsome
    cases hsome

namespace Local
open Tally

/-- The application with two spellings of every address. -/
def spelledApp : App Ledger Empty :=
  { app with
    bech32 := spelledBech32
    actAuthority_valid := spelledBech32_valid }

end Local

open Local Tally in
theorem runs_owners_app :
    let s := app.keeper.run [newSpace, newAction (.addSpaceOwner ⟨actAccount, 1, bob⟩)]
      (Keeper.genesis State.empty [])
    ∃ (calls : List (Act.Call State Ledger (Msg Empty) Response)) (space : Space),
      s.chain.app.spaces.map[1]? = some space ∧ space.owners = [alice, bob] ∧
      (∀ owner ∈ space.owners, (app.bech32.AccAddressFromBech32 owner).isSome) ∧
      space.owners.Nodup ∧
      (space.owners = [] → ∃ call ∈ calls, Empties 1 call) ∧
      (∀ owner ∈ space.owners, ∃ s' res,
        app.RemoveSpaceOwner ⟨app.actAuthority, 1, owner⟩ s.chain =
          .ok ((s', s.chain.rest), res) ∧
        s'.spaces.map[1]? = some (space.RemoveOwner owner)) ∧
      (∀ approvers, Shield.Eval (some (ApproversEnv approvers)) (anyOne (ownersArray space)) =
        .ok (.boolean true) ↔ ∃ owner ∈ space.owners, IsApprover approvers owner) ∧
      ((∀ call ∈ calls, ¬ RespellsOwner app.bech32 call) →
        space.owners.Pairwise fun x y => ¬ app.bech32.SameAccount x y) := by
  intro s
  obtain ⟨calls, hruns⟩ := app.keeper.run_leads
    [newSpace, newAction (.addSpaceOwner ⟨actAccount, 1, bob⟩)] (Keeper.genesis State.empty [])
  refine ⟨calls, _, rfl, rfl, ?_⟩
  apply runs_owners hruns _ rfl
  intro name hname
  rw [builtins] at hname
  split at hname
  · rename_i heq
    rw [heq]
    decide
  · split at hname
    · rename_i heq
      rw [heq]
      decide
    · split at hname
      · rename_i heq
        rw [heq]
        decide
      · cases hname

open Local Tally in
/-- The only owner of a space removes itself, and the default rule is true of no approvers. In
another space one account is two owners. -/
theorem runs_owners_fail :
    let s := app.keeper.run [newSpace, newAction (.removeSpaceOwner ⟨actAccount, 1, alice⟩)]
      (Keeper.genesis State.empty [])
    let s' := spelledApp.keeper.run [submit (.other (.newSpace ⟨alice, 0, 0, [toUpper alice]⟩))]
      (Keeper.genesis State.empty [])
    (∃ space, s.chain.app.spaces.map[1]? = some space ∧ space.owners = [] ∧
      ∀ approvers, Shield.Eval (some (ApproversEnv approvers)) (anyOne (ownersArray space)) =
        .ok (.boolean false)) ∧
    ∃ space, s'.chain.app.spaces.map[1]? = some space ∧ space.owners = [alice, toUpper alice] ∧
      spelledApp.bech32.SameAccount alice (toUpper alice) := by
  refine ⟨⟨_, rfl, rfl, fun _ => rfl⟩, _, rfl, rfl, ?_⟩
  exact ⟨(localBech32.AccAddressFromBech32 alice).getD [], by decide, by decide⟩

end WardenProtocol.Warden
