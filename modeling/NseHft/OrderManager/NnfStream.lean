import NseHft.FeedHandler.PacketBounds
import NseHft.Lib.HeaderFraming
import NseHft.OrderManager.NnfMessages

/-!
# NNF messages on a stream

On a TCP stream the messages stand one behind the other and only the length field of the header
tells them apart. A receiver that cuts the stream by this field and goes by the transaction code
gets back every request that was encoded.
-/
namespace NseHft

open FixedWidth RecordLayout HeaderFraming

/-- What the session asks its encoder for. -/
inductive Request where
  | newOrder (o : Order) (openClose : UInt8)
  | modify (o : Order)
  | cancel (exchangeOrderNo : Int) (token : Nat) (clordid : Int)
  | heartbeat
  | signOn (password : Option (List UInt8))
  | signOff
  deriving DecidableEq, Repr

/-- A message as its receiver understands it. -/
inductive Received where
  | newOrder (message : NewOrderMessage)
  | modify (message : ModifyMessage)
  | cancel (message : CancelMessage)
  | heartbeat (traderId : Int)
  | signOn (traderId : Int) (password : List UInt8)
  | signOff (traderId : Int)
  deriving DecidableEq, Repr

/-- The receiver's dispatch. A password is zero-terminated unless it fills its field. -/
def readRequest (m : List UInt8) : Option Received :=
  let tc : Int := loadLe 2 (m.drop kHdrTransCode)
  let trader := loadLeI32 (m.drop kHdrTraderId)
  if tc = kTcNewOrder then some (.newOrder (readNewOrder m))
  else if tc = kTcModifyOrder then some (.modify (readModify m))
  else if tc = kTcCancelOrder then some (.cancel (readCancel m))
  else if tc = kTcHeartbeat then some (.heartbeat trader)
  else if tc = kTcSignOn then
    some (.signOn trader (((m.drop kNnfHeaderSize).take 32).takeWhile (· ≠ 0)))
  else if tc = kTcSignOff then some (.signOff trader)
  else none

/-- The length that the header of a message shows. -/
def lengthField (m : List UInt8) : Nat := (loadLeI16 (m.drop kHdrMsgLength)).toNat

theorem lengthField_append (front more : List UInt8) (enough : kNnfHeaderSize ≤ front.length) :
    lengthField (front ++ more) = lengthField front := by
  rw [kNnfHeaderSize] at enough
  have field : kHdrMsgLength ≤ front.length := by rw [kHdrMsgLength]; omega
  rw [lengthField, List.drop_append_of_le_length field, loadLeI16, loadLe_append]
  · rfl
  · rw [List.length_drop, kHdrMsgLength]
    omega

def nnfFormat : Format UInt8 where
  header := kNnfHeaderSize
  size := lengthField
  nonempty := Nat.zero_lt_succ 31
  inHeader := lengthField_append

namespace Request

variable (enc : NnfEncoder) (nowIst : Nat)

def encode (buf : Buffer) : Request → Nat × Buffer
  | .newOrder o openClose => enc.encodeNewOrder buf o nowIst openClose
  | .modify o => enc.encodeModify buf o nowIst
  | .cancel exchangeOrderNo token clordid => enc.encodeCancel buf exchangeOrderNo token clordid nowIst
  | .heartbeat => enc.encodeHeartbeat buf nowIst
  | .signOn password => enc.encodeSignOn buf password nowIst
  | .signOff => enc.encodeSignOff buf nowIst

/-- What is handed to the gateway: as much of the buffer as the encoder returns. -/
def bytes (buf : Buffer) (request : Request) : List UInt8 :=
  (request.encode enc nowIst buf).2.take (request.encode enc nowIst buf).1

/-- The values that the fields can have; a password is a C string. -/
def InRange : Request → Prop
  | .newOrder o _ => o.InRange
  | .modify o => o.InRange
  | .cancel exchangeOrderNo token clordid =>
    FitsI64 exchangeOrderNo ∧ token < 2 ^ 32 ∧ FitsI64 clordid
  | .signOn password => ∀ byte ∈ password.getD [], byte ≠ 0
  | .heartbeat | .signOff => True

/-- What the receiver should read. -/
def meaning : Request → Received
  | .newOrder o openClose => .newOrder
      { traderId := enc.traderId, token := o.token, side := o.side, qty := o.qty
        disclosedQty := o.disclosedQty, price := o.price
        orderType := (nnfOrderTypeChar o.orderType).toNat, validity := o.validity.code
        clientOrderId := o.clientOrderId, participant := enc.participant.toList
        branchId := enc.branchId, openClose := openClose.toNat }
  | .modify o => .modify
      { traderId := enc.traderId, exchangeOrderNo := o.exchangeOrderNo, token := o.token
        price := o.price, qty := o.qty, disclosedQty := o.disclosedQty
        clientOrderId := o.clientOrderId }
  | .cancel exchangeOrderNo token clordid => .cancel
      { traderId := enc.traderId, exchangeOrderNo := exchangeOrderNo, token := token
        clientOrderId := clordid }
  | .heartbeat => .heartbeat enc.traderId
  | .signOn password => .signOn enc.traderId ((password.getD []).take 32)
  | .signOff => .signOff enc.traderId

/-! ### The fields of a request -/

def code : Request → Int
  | .newOrder .. => kTcNewOrder
  | .modify .. => kTcModifyOrder
  | .cancel .. => kTcCancelOrder
  | .heartbeat => kTcHeartbeat
  | .signOn .. => kTcSignOn
  | .signOff => kTcSignOff

/-- The field of the password, padded with zeros. -/
def passwordField (password : Option (List UInt8)) : List UInt8 :=
  (password.getD []).take 32 ++
    (List.replicate 32 0).drop ((password.getD []).take 32).length

def body : Request → List (List UInt8)
  | .newOrder o openClose => enc.newOrderBody o openClose
  | .modify o => NnfEncoder.modifyBody o
  | .cancel exchangeOrderNo token clordid => NnfEncoder.cancelBody exchangeOrderNo token clordid
  | .signOn password => [passwordField password]
  | .heartbeat | .signOff => []

def total : Request → Nat
  | .newOrder .. => 80
  | .modify .. => 68
  | .cancel .. => 52
  | .signOn .. => 64
  | .heartbeat | .signOff => 32

def fields (request : Request) : List (List UInt8) :=
  enc.headerFields request.code nowIst request.total ++ request.body enc

variable {enc nowIst}

@[simp] theorem passwordField_length (password : Option (List UInt8)) :
    (passwordField password).length = 32 := by
  simp only [passwordField, List.length_append, List.length_take, List.length_drop,
    List.length_replicate]
  omega

theorem body_length (request : Request) : 32 + (request.body enc).flatten.length = request.total := by
  cases request <;>
    simp [body, total, NnfEncoder.newOrderBody, NnfEncoder.modifyBody, NnfEncoder.cancelBody]

theorem total_bounds (request : Request) :
    kNnfHeaderSize ≤ request.total ∧ request.total ≤ kNnfMaxMsg := by
  cases request <;> simp [total, kNnfHeaderSize, kNnfMaxMsg]

theorem code_bounds (request : Request) : 0 ≤ request.code ∧ request.code < 2 ^ (8 * 2) := by
  cases request <;>
    simp [code, kTcNewOrder, kTcModifyOrder, kTcCancelOrder, kTcHeartbeat, kTcSignOn, kTcSignOff]

theorem fields_length (request : Request) :
    (request.fields enc nowIst).flatten.length = request.total := by
  rw [fields, List.flatten_append, List.length_append, headerFields_length, body_length]

/-- The zeros of the field are stored first and the password over them. -/
theorem signOn_stores (password : Option (List UInt8)) (buf : Buffer) :
    enc.encodeSignOn buf password nowIst =
      (64, storeAll [passwordField password] kNnfHeaderSize
        (enc.writeHeader kTcSignOn nowIst 64 buf)) := by
  have covered : ((password.getD []).take 32).length ≤ (List.replicate 32 (0 : UInt8)).length := by
    rw [List.length_take, List.length_replicate]
    omega
  simp only [NnfEncoder.encodeSignOn, copyBytes_eq_overwrite, storeAll,
    overwrite_overwrite _ _ _ _ covered, passwordField]
  rfl

theorem encode_produces (request : Request) :
    Produces (fun buf => request.encode enc nowIst buf) (request.fields enc nowIst).flatten := by
  cases request with
  | newOrder o openClose => exact encodeNewOrder_produces
  | modify o => exact encodeModify_produces
  | cancel exchangeOrderNo token clordid => exact encodeCancel_produces ..
  | heartbeat => exact produces_fields (fun _ => rfl) (body_length .heartbeat) (by decide)
  | signOn password =>
    exact produces_fields (signOn_stores password) (body_length (.signOn password))
      (signOn password).total_bounds.2
  | signOff => exact produces_fields (fun _ => rfl) (body_length .signOff) (by decide)

/-- The message does not depend on what the buffer held. -/
theorem bytes_eq (request : Request) (buf : Buffer) (room : kNnfMaxMsg ≤ buf.length) :
    request.bytes enc nowIst buf = (request.fields enc nowIst).flatten := by
  have produced := @encode_produces enc nowIst request
  have fits := Nat.le_trans produced.bounded room
  rw [bytes, produced.returned buf, produced.written buf fits, List.take_left' rfl]

theorem fields_whole (request : Request) :
    nnfFormat.Whole (request.fields enc nowIst).flatten where
  header := by
    rw [fields_length]
    exact request.total_bounds.1
  length := by
    have field := (@encode_produces enc nowIst request).lengthField
    simp only [nnfFormat, lengthField, field, Int.toNat_natCast]

/-! ### What is read back -/

theorem code_reads (request : Request) :
    (loadLe 2 ((request.fields enc nowIst).flatten.drop kHdrTransCode) : Int) = request.code := by
  have stored : Reads (request.fields enc nowIst).flatten kHdrTransCode (leBytes 2 request.code) :=
    reads_field 0 rfl rfl
  obtain ⟨positive, small⟩ := request.code_bounds
  rw [loadLe_of_reads stored, Int.emod_eq_of_lt positive small, Int.toNat_of_nonneg positive]

theorem traderId_loads (config : enc.InRange) (request : Request) :
    loadLeI32 ((request.fields enc nowIst).flatten.drop kHdrTraderId) = enc.traderId :=
  loadLeI32_of_reads (reads_field 3 rfl (by simp [fields, NnfEncoder.headerFields, kHdrTraderId]))
    config.traderId

theorem password_reads (password : Option (List UInt8)) (text : ∀ byte ∈ password.getD [], byte ≠ 0) :
    ((((signOn password).fields enc nowIst).flatten.drop kNnfHeaderSize).take 32).takeWhile (· ≠ 0) =
      (password.getD []).take 32 := by
  obtain ⟨rest, equal⟩ := @body_reads enc nowIst kTcSignOn 64 [passwordField password] _ 0 rfl 0 rfl
  have field : ((signOn password).fields enc nowIst).flatten.drop kNnfHeaderSize =
      passwordField password ++ rest := equal
  rw [field, List.take_left' (passwordField_length password), passwordField]
  have shown : ∀ byte ∈ (password.getD []).take 32, (decide (byte ≠ 0)) = true := by
    intro byte member
    exact decide_eq_true (text byte (List.mem_of_mem_take member))
  rw [List.takeWhile_append_of_pos shown, List.drop_replicate]
  cases 32 - ((password.getD []).take 32).length with
  | zero => exact List.append_nil _
  | succ n => simp [List.replicate_succ]

/-- The receiver understands a request as it was meant. -/
theorem readRequest_fields (config : enc.InRange) (request : Request) (range : request.InRange) :
    readRequest (request.fields enc nowIst).flatten = some (request.meaning enc) := by
  have tc := @code_reads enc nowIst request
  have trader := @traderId_loads enc nowIst config request
  rw [readRequest]
  simp only [tc, trader]
  cases request with
  | newOrder o openClose =>
    exact congrArg (some ∘ Received.newOrder) (readNewOrder_fields config range)
  | modify o => exact congrArg (some ∘ Received.modify) (readModify_fields config range)
  | cancel exchangeOrderNo token clordid =>
    exact congrArg (some ∘ Received.cancel) (readCancel_fields config range.1 range.2.1 range.2.2)
  | heartbeat => rfl
  | signOn password =>
    exact congrArg (some ∘ Received.signOn enc.traderId) (password_reads password range)
  | signOff => rfl

end Request

end NseHft
