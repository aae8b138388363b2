import NseHft.Common.WireFields

/-!
# NNF messages on the wire

The fields of a message lie one behind the other, so an encoder overwrites exactly the bytes of
its message, whatever the buffer held. A receiver that loads each field at its offset gets back
what was encoded.
-/
namespace NseHft

open FixedWidth RecordLayout

/-- The values that the fields of an order can have. -/
structure Order.InRange (o : Order) : Prop where
  clientOrderId : FitsI64 o.clientOrderId
  exchangeOrderNo : FitsI64 o.exchangeOrderNo
  token : o.token < 2 ^ 32
  price : FitsI64 o.price
  qty : FitsI32 o.qty
  disclosedQty : FitsI32 o.disclosedQty

structure NnfEncoder.InRange (enc : NnfEncoder) : Prop where
  traderId : FitsI32 enc.traderId
  branchId : FitsI16 enc.branchId

/-! ### What a receiver reads -/

/-- The fields of a NEW ORDER. -/
structure NewOrderMessage where
  traderId : Int
  token : Nat
  side : Side
  qty : Int
  disclosedQty : Int
  price : Int
  orderType : Nat
  validity : Int
  clientOrderId : Int
  participant : List UInt8
  branchId : Int
  openClose : Nat
  deriving DecidableEq, Repr

/-- The fields of an ORDER MODIFICATION. -/
structure ModifyMessage where
  traderId : Int
  exchangeOrderNo : Int
  token : Nat
  price : Int
  qty : Int
  disclosedQty : Int
  clientOrderId : Int
  deriving DecidableEq, Repr

/-- The fields of an ORDER CANCELLATION. -/
structure CancelMessage where
  traderId : Int
  exchangeOrderNo : Int
  token : Nat
  clientOrderId : Int
  deriving DecidableEq, Repr

def readNewOrder (m : List UInt8) : NewOrderMessage where
  traderId := loadLeI32 (m.drop kHdrTraderId)
  token := loadLe 4 (m.drop (kNnfHeaderSize + 0))
  side := decodeSide (loadLe 2 (m.drop (kNnfHeaderSize + 4)))
  qty := loadLeI32 (m.drop (kNnfHeaderSize + 6))
  disclosedQty := loadLeI32 (m.drop (kNnfHeaderSize + 10))
  price := loadLeI64 (m.drop (kNnfHeaderSize + 14))
  orderType := loadLe 1 (m.drop (kNnfHeaderSize + 22))
  validity := loadLeI16 (m.drop (kNnfHeaderSize + 23))
  clientOrderId := loadLeI64 (m.drop (kNnfHeaderSize + 25))
  participant := (m.drop (kNnfHeaderSize + 33)).take 12
  branchId := loadLeI16 (m.drop (kNnfHeaderSize + 45))
  openClose := loadLe 1 (m.drop (kNnfHeaderSize + 47))

def readModify (m : List UInt8) : ModifyMessage where
  traderId := loadLeI32 (m.drop kHdrTraderId)
  exchangeOrderNo := loadLeI64 (m.drop (kNnfHeaderSize + 0))
  token := loadLe 4 (m.drop (kNnfHeaderSize + 8))
  price := loadLeI64 (m.drop (kNnfHeaderSize + 12))
  qty := loadLeI32 (m.drop (kNnfHeaderSize + 20))
  disclosedQty := loadLeI32 (m.drop (kNnfHeaderSize + 24))
  clientOrderId := loadLeI64 (m.drop (kNnfHeaderSize + 28))

def readCancel (m : List UInt8) : CancelMessage where
  traderId := loadLeI32 (m.drop kHdrTraderId)
  exchangeOrderNo := loadLeI64 (m.drop (kNnfHeaderSize + 0))
  token := loadLe 4 (m.drop (kNnfHeaderSize + 8))
  clientOrderId := loadLeI64 (m.drop (kNnfHeaderSize + 12))

/-- The encoder leaves exactly this message in a buffer, whatever the buffer held: it returns
the length of the message, which the header's length field repeats, and writes nothing behind
it. -/
structure Produces (encode : Buffer → Nat × Buffer) (message : List UInt8) : Prop where
  returned : ∀ buf, (encode buf).1 = message.length
  bounded : message.length ≤ kNnfMaxMsg
  lengthField : loadLeI16 (message.drop kHdrMsgLength) = message.length
  written : ∀ buf, message.length ≤ buf.length →
    (encode buf).2 = message ++ buf.drop message.length

/-! ### Messages as lists of fields -/

namespace NnfEncoder

variable (enc : NnfEncoder)

def headerFields (tc : Int) (nowIst len : Nat) : List (List UInt8) :=
  [leBytes 2 tc, leBytes 4 0, [enc.alpha.1, enc.alpha.2], leBytes 4 enc.traderId, leBytes 2 0,
    encodeTimestamp nowIst, List.replicate 8 0, leBytes 2 len]

def newOrderBody (o : Order) (openClose : UInt8) : List (List UInt8) :=
  [leBytes 4 o.token, leBytes 2 (if o.side = kBuy then 1 else 2), leBytes 4 o.qty,
    leBytes 4 o.disclosedQty, leBytes 8 o.price, [nnfOrderTypeChar o.orderType],
    leBytes 2 o.validity.code, leBytes 8 o.clientOrderId, enc.participant.toList,
    leBytes 2 enc.branchId, [openClose]]

def modifyBody (o : Order) : List (List UInt8) :=
  [leBytes 8 o.exchangeOrderNo, leBytes 4 o.token, leBytes 8 o.price, leBytes 4 o.qty,
    leBytes 4 o.disclosedQty, leBytes 8 o.clientOrderId]

def cancelBody (exchangeOrderNo : Int) (token : Nat) (clordid : Int) : List (List UInt8) :=
  [leBytes 8 exchangeOrderNo, leBytes 4 token, leBytes 8 clordid]

end NnfEncoder

theorem copyBytes_eq_overwrite (bytes : List UInt8) (p : Nat) (buf : Buffer) :
    copyBytes bytes p buf = overwrite bytes p buf := by
  induction bytes generalizing p buf with
  | nil => rfl
  | cons byte rest ih => exact ih (p + 1) (buf.set p byte)

section Layout

variable {enc : NnfEncoder} {o : Order} {nowIst : Nat} {openClose : UInt8}

@[simp] theorem encodeTimestamp_length (istNs : Nat) :
    (NnfEncoder.encodeTimestamp istNs).length = 8 := rfl

@[simp] theorem headerFields_length (tc : Int) (len : Nat) :
    (enc.headerFields tc nowIst len).flatten.length = 32 := by
  simp [NnfEncoder.headerFields]

/-- The header is stored field by field. -/
theorem writeHeader_stores (tc : Int) (len : Nat) (buf : Buffer) (rest : List (List UInt8)) :
    storeAll rest kNnfHeaderSize (enc.writeHeader tc nowIst len buf) =
      storeAll (enc.headerFields tc nowIst len ++ rest) 0 buf := by
  simp [NnfEncoder.writeHeader, NnfEncoder.headerFields, storeAll, storeLe, copyBytes_eq_overwrite,
    kNnfHeaderSize, kHdrTransCode, kHdrLogTime, kHdrAlphaChar, kHdrTraderId, kHdrErrorCode,
    kHdrTimestamp, kHdrTimestamp2, kHdrMsgLength]

/-- A message that is stored field by field behind its header. -/
theorem produces_fields {encode : Buffer → Nat × Buffer} {tc : Int} {total : Nat}
    {body : List (List UInt8)}
    (stores : ∀ buf,
      encode buf = (total, storeAll body kNnfHeaderSize (enc.writeHeader tc nowIst total buf)))
    (length : 32 + body.flatten.length = total) (bounded : total ≤ kNnfMaxMsg) :
    Produces encode (enc.headerFields tc nowIst total ++ body).flatten := by
  have all : (enc.headerFields tc nowIst total ++ body).flatten.length = total := by
    rw [List.flatten_append, List.length_append, headerFields_length, length]
  have field : Reads (enc.headerFields tc nowIst total ++ body).flatten kHdrMsgLength
      (leBytes 2 total) := reads_field 7 rfl (by simp [NnfEncoder.headerFields, kHdrMsgLength])
  rw [kNnfMaxMsg] at bounded
  refine ⟨?_, ?_, ?_, ?_⟩
  · intro buf
    rw [stores, all]
  · rw [all]
    exact bounded
  · rw [all]
    apply loadLeI16_of_reads field
    simp only [FitsI16]
    omega
  · intro buf room
    rw [stores, writeHeader_stores, storeAll_zero _ _ room]

/-- A field of the body stands behind the header and the fields before it. -/
theorem body_reads {tc : Int} {len : Nat} {body : List (List UInt8)} {field : List UInt8} (i : Nat)
    (here : body[i]? = some field) {p : Nat} (offset : (body.take i).flatten.length = p) :
    Reads (enc.headerFields tc nowIst len ++ body).flatten (kNnfHeaderSize + p) field := by
  have eight : (enc.headerFields tc nowIst len).length = 8 := rfl
  apply reads_field (8 + i)
  · rw [List.getElem?_append_right (by omega), eight, Nat.add_sub_cancel_left, here]
  · rw [List.take_append, eight, Nat.add_sub_cancel_left,
      List.take_of_length_le (Nat.le_trans (Nat.le_of_eq eight) (Nat.le_add_right 8 i)),
      List.flatten_append, List.length_append, headerFields_length, offset]
    rfl

end Layout

section Fields

variable {enc : NnfEncoder} {o : Order} {nowIst : Nat} {openClose : UInt8}

theorem encodeNewOrder_produces :
    Produces (fun buf => enc.encodeNewOrder buf o nowIst openClose)
      (enc.headerFields kTcNewOrder nowIst 80 ++ enc.newOrderBody o openClose).flatten := by
  have stores (buf : Buffer) : enc.encodeNewOrder buf o nowIst openClose =
      (80, storeAll (enc.newOrderBody o openClose) kNnfHeaderSize
        (enc.writeHeader kTcNewOrder nowIst 80 buf)) := by
    simp [NnfEncoder.encodeNewOrder, NnfEncoder.newOrderBody, storeAll, storeLe,
      copyBytes_eq_overwrite, kNnfHeaderSize, kNnfMaxMsg]
  exact produces_fields stores (by simp [NnfEncoder.newOrderBody]) (by decide)

theorem encodeModify_produces :
    Produces (fun buf => enc.encodeModify buf o nowIst)
      (enc.headerFields kTcModifyOrder nowIst 68 ++ NnfEncoder.modifyBody o).flatten := by
  have stores (buf : Buffer) : enc.encodeModify buf o nowIst =
      (68, storeAll (NnfEncoder.modifyBody o) kNnfHeaderSize
        (enc.writeHeader kTcModifyOrder nowIst 68 buf)) := by
    simp [NnfEncoder.encodeModify, NnfEncoder.modifyBody, storeAll, storeLe, copyBytes_eq_overwrite,
      kNnfHeaderSize]
  exact produces_fields stores (by simp [NnfEncoder.modifyBody]) (by decide)

theorem encodeCancel_produces (exchangeOrderNo : Int) (token : Nat) (clordid : Int) :
    Produces (fun buf => enc.encodeCancel buf exchangeOrderNo token clordid nowIst)
      (enc.headerFields kTcCancelOrder nowIst 52 ++
        NnfEncoder.cancelBody exchangeOrderNo token clordid).flatten := by
  have stores (buf : Buffer) : enc.encodeCancel buf exchangeOrderNo token clordid nowIst =
      (52, storeAll (NnfEncoder.cancelBody exchangeOrderNo token clordid) kNnfHeaderSize
        (enc.writeHeader kTcCancelOrder nowIst 52 buf)) := by
    simp [NnfEncoder.encodeCancel, NnfEncoder.cancelBody, storeAll, storeLe, copyBytes_eq_overwrite,
      kNnfHeaderSize]
  exact produces_fields stores (by simp [NnfEncoder.cancelBody]) (by decide)

private theorem traderId_reads {tc : Int} {len : Nat} {body : List (List UInt8)}
    (config : enc.InRange) :
    loadLeI32 ((enc.headerFields tc nowIst len ++ body).flatten.drop kHdrTraderId) =
      enc.traderId :=
  loadLeI32_of_reads (reads_field 3 rfl (by simp [NnfEncoder.headerFields, kHdrTraderId]))
    config.traderId

theorem readNewOrder_fields (config : enc.InRange) (order : o.InRange) :
    readNewOrder (enc.headerFields kTcNewOrder nowIst 80 ++ enc.newOrderBody o openClose).flatten =
      { traderId := enc.traderId, token := o.token, side := o.side, qty := o.qty
        disclosedQty := o.disclosedQty, price := o.price
        orderType := (nnfOrderTypeChar o.orderType).toNat, validity := o.validity.code
        clientOrderId := o.clientOrderId, participant := enc.participant.toList
        branchId := enc.branchId, openClose := openClose.toNat } := by
  have validity : FitsI16 o.validity.code := by cases o.validity <;> decide
  have participant : ((enc.headerFields kTcNewOrder nowIst 80 ++
      enc.newOrderBody o openClose).flatten.drop (kNnfHeaderSize + 33)).take 12 =
        enc.participant.toList := by
    obtain ⟨rest, equal⟩ := @body_reads enc nowIst kTcNewOrder 80 (enc.newOrderBody o openClose) _ 8
      rfl 33 (by simp [NnfEncoder.newOrderBody])
    rw [equal, List.take_left' (by simp)]
  simp only [readNewOrder, NewOrderMessage.mk.injEq]
  exact ⟨traderId_reads config,
    loadLe_of_reads_nat (body_reads 0 rfl rfl) order.token,
    decodeSide_of_reads (body_reads 1 rfl rfl) (by decide),
    loadLeI32_of_reads (body_reads 2 rfl rfl) order.qty,
    loadLeI32_of_reads (body_reads 3 rfl rfl) order.disclosedQty,
    loadLeI64_of_reads (body_reads 4 rfl rfl) order.price,
    loadLe_of_reads_byte (body_reads 5 rfl rfl),
    loadLeI16_of_reads (body_reads 6 rfl rfl) validity,
    loadLeI64_of_reads (body_reads 7 rfl rfl) order.clientOrderId,
    participant,
    loadLeI16_of_reads (body_reads 9 rfl (by simp [NnfEncoder.newOrderBody])) config.branchId,
    loadLe_of_reads_byte (body_reads 10 rfl (by simp [NnfEncoder.newOrderBody]))⟩

theorem readModify_fields (config : enc.InRange) (order : o.InRange) :
    readModify (enc.headerFields kTcModifyOrder nowIst 68 ++ NnfEncoder.modifyBody o).flatten =
      { traderId := enc.traderId, exchangeOrderNo := o.exchangeOrderNo, token := o.token
        price := o.price, qty := o.qty, disclosedQty := o.disclosedQty
        clientOrderId := o.clientOrderId } := by
  simp only [readModify, ModifyMessage.mk.injEq]
  exact ⟨traderId_reads config,
    loadLeI64_of_reads (body_reads 0 rfl rfl) order.exchangeOrderNo,
    loadLe_of_reads_nat (body_reads 1 rfl rfl) order.token,
    loadLeI64_of_reads (body_reads 2 rfl rfl) order.price,
    loadLeI32_of_reads (body_reads 3 rfl rfl) order.qty,
    loadLeI32_of_reads (body_reads 4 rfl rfl) order.disclosedQty,
    loadLeI64_of_reads (body_reads 5 rfl rfl) order.clientOrderId⟩

theorem readCancel_fields {exchangeOrderNo : Int} {token : Nat} {clordid : Int}
    (config : enc.InRange) (no : FitsI64 exchangeOrderNo) (small : token < 2 ^ 32)
    (id : FitsI64 clordid) :
    readCancel (enc.headerFields kTcCancelOrder nowIst 52 ++
        NnfEncoder.cancelBody exchangeOrderNo token clordid).flatten =
      { traderId := enc.traderId, exchangeOrderNo := exchangeOrderNo, token := token
        clientOrderId := clordid } := by
  simp only [readCancel, CancelMessage.mk.injEq]
  exact ⟨traderId_reads config,
    loadLeI64_of_reads (body_reads 0 rfl rfl) no,
    loadLe_of_reads_nat (body_reads 1 rfl rfl) small,
    loadLeI64_of_reads (body_reads 2 rfl rfl) id⟩

end Fields

/-- The messages for new orders, modifications and cancels decode back to what was encoded,
with the length the encoder returns in their header, and do not depend on what the buffer
held; behind them the buffer is untouched. -/
theorem messages_decode (enc : NnfEncoder) (config : enc.InRange) (o : Order) (order : o.InRange)
    (nowIst : Nat) (openClose : UInt8) :
    (∃ m, Produces (fun buf => enc.encodeNewOrder buf o nowIst openClose) m ∧
      readNewOrder m =
        { traderId := enc.traderId, token := o.token, side := o.side, qty := o.qty
          disclosedQty := o.disclosedQty, price := o.price
          orderType := (nnfOrderTypeChar o.orderType).toNat, validity := o.validity.code
          clientOrderId := o.clientOrderId, participant := enc.participant.toList
          branchId := enc.branchId, openClose := openClose.toNat }) ∧
    (∃ m, Produces (fun buf => enc.encodeModify buf o nowIst) m ∧
      readModify m =
        { traderId := enc.traderId, exchangeOrderNo := o.exchangeOrderNo, token := o.token
          price := o.price, qty := o.qty, disclosedQty := o.disclosedQty
          clientOrderId := o.clientOrderId }) ∧
    ∃ m, Produces (fun buf =>
        enc.encodeCancel buf o.exchangeOrderNo o.token o.clientOrderId nowIst) m ∧
      readCancel m =
        { traderId := enc.traderId, exchangeOrderNo := o.exchangeOrderNo, token := o.token
          clientOrderId := o.clientOrderId } := by
  refine ⟨⟨_, encodeNewOrder_produces, readNewOrder_fields config order⟩,
    ⟨_, encodeModify_produces, readModify_fields config order⟩,
    ⟨_, encodeCancel_produces .., readCancel_fields config ?_ ?_ ?_⟩⟩
  · exact order.exchangeOrderNo
  · exact order.token
  · exact order.clientOrderId

private def sampleEncoder : NnfEncoder :=
  { traderId := -7, branchId := 32767 }

private def sampleOrder : Order :=
  { clientOrderId := -1, exchangeOrderNo := 2 ^ 63 - 1, token := 2 ^ 32 - 1, price := -2 ^ 63
    qty := -5, disclosedQty := 2 ^ 31 - 1, side := kSell, orderType := .stopLoss, validity := .eos }

theorem extreme_order_decodes :
    ∃ m, Produces (fun buf => sampleEncoder.encodeModify buf sampleOrder 0) m ∧
      readModify m =
        { traderId := -7, exchangeOrderNo := 2 ^ 63 - 1, token := 2 ^ 32 - 1, price := -2 ^ 63
          qty := -5, disclosedQty := 2 ^ 31 - 1, clientOrderId := -1 } :=
  (messages_decode sampleEncoder ⟨by decide, by decide⟩ sampleOrder
    ⟨by decide, by decide, by decide, by decide, by decide, by decide⟩ 0 0).2.1

end NseHft
