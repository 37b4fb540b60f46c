import WardenProtocol.GoJson
import WardenProtocol.Foundation.Fallible

namespace WardenProtocol.Gmp
open Foundation
set_option autoImplicit true

/-- A coin; the amount of one that was decoded can be missing. -/
structure Coin where
  denom : GoString
  amount : Option Int
  deriving DecidableEq

/-- `Int.String`. -/
def Coin.amountString (c : Coin) : GoString :=
  match c.amount with
  | none => str "<nil>"
  | some z => intString z

structure Params where
  gmpAddress : GoString
  gmpChannel : GoString
  gmpTimeout : Int64
  feeRecipient : GoString

structure MsgBridge where
  relayer : GoString
  destinationChain : GoString
  wardenContractAddress : GoString
  destinationContractAddress : GoString
  destinationContractCalldata : GoString
  token : Coin

structure GmpFee where
  amount : GoString
  recipient : GoString

structure GmpMessage where
  destinationChain : GoString
  destinationAddress : GoString
  payload : GoString
  type : Int
  fee : GmpFee

def TypeGeneralMessage : Int := 1

/-- `json.Marshal`, which does not fail on this type. -/
def GmpMessage.Marshal (m : GmpMessage) : GoString :=
  jsonObject
    [(str "destination_chain", jsonString m.destinationChain),
      (str "destination_address", jsonString m.destinationAddress),
      (str "payload", jsonBytes m.payload),
      (str "type", intString m.type),
      (str "fee", jsonObject
        [(str "amount", jsonString m.fee.amount), (str "recipient", jsonString m.fee.recipient)])]

structure Height where
  revisionNumber : Nat
  revisionHeight : Nat

def ZeroHeight : Height := ⟨0, 0⟩

/-- The message of an IBC transfer. -/
structure MsgTransfer where
  sourcePort : GoString
  sourceChannel : GoString
  token : Coin
  sender : GoString
  receiver : GoString
  timeoutHeight : Height
  timeoutTimestamp : UInt64
  memo : GoString

def PortID : GoString := str "transfer"

structure MsgTransferResponse where
  sequence : Nat

structure MsgBridgeResponse

/-- The time of the block in nanoseconds, and the stored parameters of the module. -/
structure Context where
  blockTime : Int
  params : Params

/-- The codecs the module uses: the generated one of its message, and that of the contract ABI. -/
structure Keeper where
  Marshal : MsgBridge → Except Fault GoString
  Unmarshal : GoString → Except Fault MsgBridge
  HexToAddress : GoString → GoString
  Pack : (address : GoString) → (calldata : GoString) → Except Fault GoString

/-- The embedded keeper of ibc-go, on a state. -/
abbrev Embedded (S : Type) := MsgTransfer → S → Except Fault (MsgTransferResponse × S)

/-- Some hours after the block. -/
def timeoutTimestamp (ctx : Context) : UInt64 :=
  UInt64.ofInt (ctx.blockTime + ctx.params.gmpTimeout.toInt * 3600000000000)

namespace Keeper
variable (k : Keeper)

def GMPEncode (msg : MsgBridge) : Except Fault GoString :=
  k.Pack (k.HexToAddress msg.destinationContractAddress) msg.destinationContractCalldata

def BuildGmpRequest (ctx : Context) (msg : MsgBridge) : Except Fault MsgTransfer := do
  let payload ← k.GMPEncode msg
  let message : GmpMessage :=
    ⟨msg.destinationChain, msg.wardenContractAddress, payload, TypeGeneralMessage,
      ⟨msg.token.amountString, ctx.params.feeRecipient⟩⟩
  .ok ⟨PortID, ctx.params.gmpChannel, msg.token, msg.relayer, ctx.params.gmpAddress, ZeroHeight,
    timeoutTimestamp ctx, message.Marshal⟩

end Keeper

/-- The wrapper of the keeper of ibc-go. -/
def Transfer (gmpKeeper : Option Keeper) (embedded : Embedded S) (ctx : Context)
    (msg : MsgTransfer) (s : S) : Except Fault (MsgTransferResponse × S) :=
  match gmpKeeper with
  | none => .error (.error (str "GmpKeeper is not initialized"))
  | some k =>
    if msg.receiver = ctx.params.gmpAddress then do
      let bridgeMsg ← k.Unmarshal msg.memo
      let gmpTransferMsg ← k.BuildGmpRequest ctx bridgeMsg
      embedded gmpTransferMsg s
    else embedded msg s

/-- The other way in: the keeper submits a transfer with the message as the memo, and returns no
response. -/
def Keeper.Bridge (k : Keeper) (embedded : Embedded S) (ctx : Context) (msg : MsgBridge) (s : S) :
    Except Fault (Option MsgBridgeResponse × S) := do
  let bz ← k.Marshal msg
  let transferMsg : MsgTransfer :=
    ⟨PortID, ctx.params.gmpChannel, msg.token, msg.relayer, ctx.params.gmpAddress, ZeroHeight,
      timeoutTimestamp ctx, bz⟩
  let (_, s) ← Transfer (some k) embedded ctx transferMsg s
  .ok (none, s)

/-- Record the transfers that reach the embedded keeper. -/
def recorder : Embedded (List MsgTransfer) := fun msg sent => .ok (⟨0⟩, sent ++ [msg])

/-- The transfers that a transfer given to the wrapper comes to. -/
def Reaches (gmpKeeper : Option Keeper) (ctx : Context) (msg m : MsgTransfer) : Prop :=
  ∃ res sent, Transfer gmpKeeper recorder ctx msg [] = .ok (res, sent) ∧ m ∈ sent

variable {k : Keeper} {ctx : Context} {msg m : MsgTransfer}

theorem BuildGmpRequest_eq_ok {bridge : MsgBridge} (h : k.BuildGmpRequest ctx bridge = .ok m) :
    (∃ payload, k.GMPEncode bridge = .ok payload) ∧ m.sender = bridge.relayer ∧
      m.token = bridge.token := by
  obtain ⟨payload, hpayload, h⟩ := bind_eq_ok.1 h
  cases h
  exact ⟨⟨payload, hpayload⟩, rfl, rfl⟩

theorem BuildGmpRequest_defined (ctx : Context) {bridge : MsgBridge}
    (h : k.GMPEncode bridge = .ok payload) : ∃ m, k.BuildGmpRequest ctx bridge = .ok m := by
  rw [Keeper.BuildGmpRequest, h]
  exact ⟨_, rfl⟩

/-- Another receiver: the message itself. -/
theorem reaches_other (h : msg.receiver ≠ ctx.params.gmpAddress) :
    Reaches (some k) ctx msg m ↔ m = msg := by
  rw [Reaches, Transfer]
  simp only [h, if_false, recorder]
  constructor
  · rintro ⟨res, sent, h, hm⟩
    cases h
    exact List.mem_singleton.1 hm
  · rintro rfl
    exact ⟨_, _, rfl, List.mem_singleton.2 rfl⟩

/-- The address of the other chain: the message that is built from the memo. -/
theorem reaches_gmp (h : msg.receiver = ctx.params.gmpAddress) :
    Reaches (some k) ctx msg m ↔
      ∃ bridge, k.Unmarshal msg.memo = .ok bridge ∧ k.BuildGmpRequest ctx bridge = .ok m := by
  rw [Reaches, Transfer]
  simp only [h, if_true]
  constructor
  · rintro ⟨res, sent, h, hm⟩
    obtain ⟨bridge, hbridge, h⟩ := bind_eq_ok.1 h
    obtain ⟨request, hrequest, h⟩ := bind_eq_ok.1 h
    cases h
    rw [List.mem_singleton.1 hm]
    exact ⟨bridge, hbridge, hrequest⟩
  · rintro ⟨bridge, hbridge, hrequest⟩
    rw [hbridge, ok_bind, hrequest, ok_bind]
    exact ⟨_, _, rfl, List.mem_singleton.2 rfl⟩

/-- A transfer moves the token of the message from its sender exactly if, where the receiver is the
address of the other chain, a memo that can be relayed names the same account and token; and a
bridge message does so always. -/
theorem transfer_signed_iff (gmpKeeper : Option Keeper) (ctx : Context) :
    (∀ msg, (∀ m, Reaches gmpKeeper ctx msg m → m.sender = msg.sender ∧ m.token = msg.token) ↔
      (msg.receiver = ctx.params.gmpAddress → ∀ k, gmpKeeper = some k →
        ∀ bridge payload, k.Unmarshal msg.memo = .ok bridge → k.GMPEncode bridge = .ok payload →
          bridge.relayer = msg.sender ∧ bridge.token = msg.token)) ∧
    ∀ k : Keeper, (∀ bridge bz, k.Marshal bridge = .ok bz → k.Unmarshal bz = .ok bridge) →
      ∀ bridge res sent, k.Bridge recorder ctx bridge [] = .ok (res, sent) →
        ∀ m ∈ sent, m.sender = bridge.relayer ∧ m.token = bridge.token := by
  constructor
  · intro msg
    cases gmpKeeper with
    | none =>
      constructor
      · intro _ _ k hk
        cases hk
      · rintro - m ⟨res, sent, h, -⟩
        cases h
    | some k =>
      by_cases hreceiver : msg.receiver = ctx.params.gmpAddress
      · simp only [reaches_gmp hreceiver, hreceiver, forall_const, Option.some.injEq]
        constructor
        · rintro h _ rfl bridge payload hbridge hpayload
          obtain ⟨m, hm⟩ := BuildGmpRequest_defined ctx hpayload
          obtain ⟨-, hsender, htoken⟩ := BuildGmpRequest_eq_ok hm
          rw [← hsender, ← htoken]
          exact h m ⟨bridge, hbridge, hm⟩
        · rintro h m ⟨bridge, hbridge, hm⟩
          obtain ⟨⟨payload, hpayload⟩, hsender, htoken⟩ := BuildGmpRequest_eq_ok hm
          rw [hsender, htoken]
          exact h k rfl bridge payload hbridge hpayload
      · simp only [reaches_other hreceiver, hreceiver, forall_eq, and_self, false_implies]
  · intro k hcodec bridge res sent h m hm
    obtain ⟨bz, hbz, h⟩ := bind_eq_ok.1 h
    obtain ⟨⟨res', sent'⟩, htransfer, h⟩ := bind_eq_ok.1 h
    cases h
    obtain ⟨bridge', hbridge', hrequest⟩ := (reaches_gmp rfl).1 ⟨_, _, htransfer, hm⟩
    cases (hcodec bridge bz hbz).symm.trans hbridge'
    exact (BuildGmpRequest_eq_ok hrequest).2

namespace Local

/-- A field of bytes in a message, of less than 128 bytes. -/
def field (tag : UInt8) (bz : GoString) : GoString :=
  if bz = [] then [] else tag :: UInt8.ofNat bz.length :: bz

def coin (c : Coin) : GoString :=
  field 0x0A c.denom ++ field 0x12 (c.amount.elim [] intString)

/-- The encoding of a message with short fields. -/
def marshal (m : MsgBridge) : GoString :=
  field 0x0A m.relayer ++ field 0x12 m.destinationChain ++ field 0x1A m.wardenContractAddress ++
    field 0x22 m.destinationContractAddress ++ field 0x2A m.destinationContractCalldata ++
    field 0x32 (coin m.token)

/-- A field is read where its tag stands, and is empty elsewhere. -/
def readField (tag : UInt8) : GoString → GoString × GoString
  | t :: n :: s => if t = tag then (s.take n.toNat, s.drop n.toNat) else ([], t :: n :: s)
  | s => ([], s)

def readCoin (s : GoString) : Coin :=
  let (denom, s) := readField 0x0A s
  let (amount, _) := readField 0x12 s
  ⟨denom, setString amount⟩

def unmarshal (s : GoString) : MsgBridge :=
  let (relayer, s) := readField 0x0A s
  let (destinationChain, s) := readField 0x12 s
  let (wardenContractAddress, s) := readField 0x1A s
  let (destinationContractAddress, s) := readField 0x22 s
  let (destinationContractCalldata, s) := readField 0x2A s
  let (token, _) := readField 0x32 s
  ⟨relayer, destinationChain, wardenContractAddress, destinationContractAddress,
    destinationContractCalldata, readCoin token⟩

/-- The next field, if there is one, has a larger tag. -/
def Behind (tag : UInt8) (s : GoString) : Prop := ∀ t ∈ s.head?, tag < t

theorem behind_nil (tag : UInt8) : Behind tag [] := by
  intro t h
  cases h

theorem behind_field (htag : tag < tag') (bz : GoString) (h : Behind tag' s) :
    Behind tag (field tag' bz ++ s) := by
  rw [field]
  split
  · exact fun t ht => UInt8.lt_trans htag (h t ht)
  · intro t ht
    cases ht
    exact htag

theorem readField_field {bz : GoString} (hlength : bz.length < 128) (h : Behind tag s) :
    readField tag (field tag bz ++ s) = (bz, s) := by
  rw [field]
  split
  · rename_i hnil
    rw [hnil, List.nil_append]
    match s with
    | [] => rfl
    | [t] => rfl
    | t :: n :: s =>
      have hne : t ≠ tag := by
        rintro rfl
        exact absurd (h t rfl) (UInt8.lt_irrefl t)
      rw [readField, if_neg hne]
  · have hn : (UInt8.ofNat bz.length).toNat = bz.length := by
      rw [UInt8.toNat_ofNat', Nat.mod_eq_of_lt (by omega)]
    simp only [List.cons_append, readField, if_true, hn, List.take_left, List.drop_left]

theorem length_le_field (tag : UInt8) (bz : GoString) : bz.length ≤ (field tag bz).length := by
  rw [field]
  split
  · rename_i hnil
    have hzero : bz.length = 0 := congrArg List.length hnil
    exact Nat.le_of_eq hzero
  · simp only [List.length_cons]
    omega

theorem readCoin_coin {c : Coin} (h : (coin c).length < 128) : readCoin (coin c) = c := by
  rw [coin, List.length_append] at h
  have hdenom := length_le_field 0x0A c.denom
  have hamount := length_le_field 0x12 (c.amount.elim [] intString)
  have hbehind : Behind 0x0A (field 0x12 (c.amount.elim [] intString)) := by
    have hfield := behind_field (by decide : (0x0A : UInt8) < 0x12)
      (c.amount.elim [] intString) (behind_nil _)
    rwa [List.append_nil] at hfield
  have hlength : (c.amount.elim [] intString).length < 128 := by omega
  have hread := readField_field hlength (behind_nil 0x12)
  rw [List.append_nil] at hread
  rw [readCoin, coin, readField_field (by omega) hbehind]
  simp only [hread]
  cases c with
  | mk denom amount =>
    cases amount with
    | none => rfl
    | some z => exact congrArg _ (setString_intString z)

/-- The fields of the message are of less than 128 bytes. -/
def short (m : MsgBridge) : Bool :=
  [m.relayer, m.destinationChain, m.wardenContractAddress, m.destinationContractAddress,
    m.destinationContractCalldata, coin m.token].all fun bz => bz.length < 128

theorem unmarshal_marshal {bridge : MsgBridge} (h : short bridge = true) :
    unmarshal (marshal bridge) = bridge := by
  simp only [short, List.all_cons, List.all_nil, Bool.and_true, Bool.and_eq_true,
    decide_eq_true_eq] at h
  obtain ⟨hrelayer, hchain, hwarden, haddress, hcalldata, htoken⟩ := h
  -- what stands behind each field, from the last one on
  have htoken' := behind_field (by decide : (0x2A : UInt8) < 0x32) (coin bridge.token)
    (behind_nil _)
  have hcalldata' := behind_field (by decide : (0x22 : UInt8) < 0x2A)
    bridge.destinationContractCalldata htoken'
  have haddress' := behind_field (by decide : (0x1A : UInt8) < 0x22)
    bridge.destinationContractAddress hcalldata'
  have hwarden' := behind_field (by decide : (0x12 : UInt8) < 0x1A) bridge.wardenContractAddress
    haddress'
  have hchain' := behind_field (by decide : (0x0A : UInt8) < 0x12) bridge.destinationChain hwarden'
  have hmarshal : marshal bridge = field 0x0A bridge.relayer ++
      (field 0x12 bridge.destinationChain ++ (field 0x1A bridge.wardenContractAddress ++
      (field 0x22 bridge.destinationContractAddress ++
      (field 0x2A bridge.destinationContractCalldata ++
      (field 0x32 (coin bridge.token) ++ []))))) := by
    simp only [marshal, List.append_assoc, List.append_nil]
  rw [hmarshal, unmarshal]
  simp only [readField_field hrelayer hchain', readField_field hchain hwarden',
    readField_field hwarden haddress', readField_field haddress hcalldata',
    readField_field hcalldata htoken', readField_field htoken (behind_nil _),
    readCoin_coin htoken]

def params : Params := ⟨str "axelar1dv4u5k73pzqrxlzujxg3qp8kvc3pje7jtdvu72npnt5zhq05ejcsn5qme5",
  str "channel-1", 1, str "axelar1zl3rxpp70lmte2xr6c4lgske2fyuj3hupcsvcd"⟩

def signer : GoString := str "warden18my6wqsrf5ek85znp8x202wwyg8rw4fqhy54k2"

def other : GoString := str "warden17g8u8aggq2uy7khrz0s730urz8c7rdgtu3l67t"

/-- What the memo asks for: the coins of another account. -/
def bridge : MsgBridge := ⟨other, str "Ethereum", str "0x001", [], [],
  ⟨str "uward", some 1000000⟩⟩

/-- The codecs, on messages with short fields: an address and a slice are packed in words of 32
bytes. -/
def keeper : Keeper where
  Marshal m := if short m then .ok (marshal m) else .error (.error (str "long field"))
  Unmarshal bz :=
    if marshal (unmarshal bz) = bz then .ok (unmarshal bz)
    else .error (.error (str "unexpected EOF"))
  HexToAddress _ := List.replicate 20 0
  Pack address calldata := .ok (List.replicate 12 0 ++ address ++ List.replicate 31 0 ++ [64] ++
    List.replicate 31 0 ++ [UInt8.ofNat calldata.length] ++ calldata)

def context : Context := ⟨1700000000000000000, params⟩

theorem keeper_codec (bridge : MsgBridge) (bz : GoString) (h : keeper.Marshal bridge = .ok bz) :
    keeper.Unmarshal bz = .ok bridge := by
  simp only [keeper] at h ⊢
  split at h
  · rename_i hshort
    cases h
    rw [unmarshal_marshal hshort, if_pos rfl]
  · cases h

/-- The transfer of one coin, signed by its sender. -/
def transfer : MsgTransfer := ⟨PortID, str "channel-1", ⟨str "uward", some 1⟩, signer,
  params.gmpAddress, ZeroHeight, 0, marshal bridge⟩

end Local

open Local in
/-- The message that is sent for a message of the module. -/
theorem transfer_signed_iff_bridge :
    ∃ m res, keeper.Bridge recorder context bridge [] = .ok (res, [m]) ∧
      m.sender = bridge.relayer ∧ m.token = bridge.token := by
  have hsent : ∃ m res, keeper.Bridge recorder context bridge [] = .ok (res, [m]) := ⟨_, _, rfl⟩
  obtain ⟨m, res, hsent⟩ := hsent
  have hsigned := (transfer_signed_iff (some keeper) context).2 keeper keeper_codec bridge res [m]
    hsent m (List.mem_singleton_self m)
  exact ⟨m, res, hsent, hsigned⟩

open Local in
/-- A transfer of one coin by its signer comes to a transfer of a million coins of somebody else. -/
theorem transfer_unsigned :
    ∃ m, Reaches (some keeper) context transfer m ∧ m.sender = other ∧
      m.token = ⟨str "uward", some 1000000⟩ ∧
      ¬ (m.sender = transfer.sender ∧ m.token = transfer.token) := by
  obtain ⟨payload, hpayload⟩ : ∃ payload, keeper.GMPEncode bridge = .ok payload := ⟨_, rfl⟩
  obtain ⟨m, hm⟩ := BuildGmpRequest_defined context hpayload
  obtain ⟨-, hsender, htoken⟩ := BuildGmpRequest_eq_ok hm
  have hdecoded : keeper.Unmarshal transfer.memo = .ok bridge := keeper_codec bridge _ rfl
  refine ⟨m, (reaches_gmp rfl).2 ⟨bridge, hdecoded, hm⟩, hsender, htoken, ?_⟩
  rw [hsender, htoken]
  decide

end WardenProtocol.Gmp
