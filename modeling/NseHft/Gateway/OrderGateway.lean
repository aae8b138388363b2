import NseHft.Lib.Execution
import NseHft.Lib.Machine
import NseHft.OrderManager.NnfStream

/-!
# Order gateway

One TCP connection to the exchange. The kernel takes as much of a message at a time as it likes
and may fail at any call, so what stands on the stream after a failed send is the start of a
message. The gateway drops its connected flag then, but `sendOrder` does not look at the flag:
keeping the stream readable is up to the caller.
-/
namespace NseHft

open FixedWidth Execution HeaderFraming

structure TcpSocket where
  fd : Int := -1
  deriving DecidableEq, Repr

/-- The kernel's answers to the calls of `send` for one message, by the number of the call and
how many bytes it is offered. It takes no more than that. -/
structure Kernel where
  answer : Nat → Nat → Int
  bounded : ∀ call offered, answer call offered ≤ offered

/-- Where the loop of `send_all` stands, and what the kernel has taken. -/
structure SendState where
  off : Nat := 0
  calls : Nat := 0
  taken : List UInt8 := []
  deriving DecidableEq, Repr

namespace TcpSocket

def valid (sock : TcpSocket) : Bool := decide (sock.fd ≥ 0)

def closeSocket (sock : TcpSocket) : TcpSocket := if sock.fd ≥ 0 then { fd := -1 } else sock

/-- The kernel gives the descriptor `fd`, negative on failure, and connects it or not. A
descriptor that was open before is forgotten, not closed. -/
def connectTo (fd : Int) (reached : Bool) : Bool × TcpSocket :=
  let sock : TcpSocket := { fd := fd }
  if sock.fd < 0 then (false, sock)
  else if !reached then (false, sock.closeSocket)
  else (true, sock)

def adopt (sock : TcpSocket) (fd : Int) : TcpSocket := { sock.closeSocket with fd := fd }

/-- One call of `send`. -/
def send (sock : TcpSocket) (kernel : Kernel) (call offered : Nat) : Int :=
  if sock.fd < 0 then -1 else kernel.answer call offered

def sendStep (sock : TcpSocket) (kernel : Kernel) (buf : List UInt8) (s : SendState) :
    SendState ⊕ (Bool × SendState) :=
  if s.off < buf.length then
    let n := sock.send kernel s.calls (buf.length - s.off)
    if n ≤ 0 then .inr (false, s)
    else .inl { off := s.off + n.toNat, calls := s.calls + 1
                taken := s.taken ++ (buf.drop s.off).take n.toNat }
  else .inr (true, s)

/-- Whether all was sent, and what the kernel took. -/
def sendAll (sock : TcpSocket) (kernel : Kernel) (buf : List UInt8) : Bool × List UInt8 :=
  match iterate (sock.sendStep kernel buf) (buf.length + 1) {} with
  | some (done, s) => (done, s.taken)
  | none => (false, [])

theorem send_le (sock : TcpSocket) (kernel : Kernel) (call offered : Nat) :
    sock.send kernel call offered ≤ offered := by
  rw [send]
  split
  · omega
  · exact kernel.bounded call offered

/-- The kernel has taken the message up to the offset. -/
def TakenUpTo (buf : List UInt8) (s : SendState) : Prop :=
  s.off ≤ buf.length ∧ s.taken = buf.take s.off

theorem sendStep_advances (sock : TcpSocket) (kernel : Kernel) (buf : List UInt8)
    (s next : SendState) (upTo : TakenUpTo buf s) (continues : sock.sendStep kernel buf s = .inl next) :
    TakenUpTo buf next ∧ buf.length - next.off < buf.length - s.off := by
  simp only [sendStep] at continues
  split at continues
  next more =>
    have bound := sock.send_le kernel s.calls (buf.length - s.off)
    generalize sock.send kernel s.calls (buf.length - s.off) = n at continues bound
    split at continues
    · cases continues
    next positive =>
      cases continues
      refine ⟨⟨?_, ?_⟩, ?_⟩
      · dsimp only
        omega
      · dsimp only
        rw [upTo.2, List.take_add]
      · dsimp only
        omega
  · cases continues

/-- What the kernel took of a message: all of it if the call succeeds, else less. -/
structure Taken (buf : List UInt8) (result : Bool × List UInt8) : Prop where
  front : result.2 <+: buf
  all : result.1 = true → result.2 = buf
  less : result.1 = false → result.2.length < buf.length

theorem sendStep_finishes (sock : TcpSocket) (kernel : Kernel) (buf : List UInt8) (s : SendState)
    (result : Bool × SendState) (upTo : TakenUpTo buf s)
    (leaves : sock.sendStep kernel buf s = .inr result) : Taken buf (result.1, result.2.taken) := by
  obtain ⟨inside, taken⟩ := upTo
  simp only [sendStep] at leaves
  split at leaves
  next more =>
    split at leaves
    · cases leaves
      refine ⟨taken ▸ List.take_prefix _ _, nofun, fun _ => ?_⟩
      dsimp only
      rw [taken, List.length_take]
      omega
    · cases leaves
  next all =>
    cases leaves
    have whole : s.taken = buf := by rw [taken, List.take_of_length_le (Nat.le_of_not_lt all)]
    exact ⟨whole ▸ List.prefix_refl _, fun _ => whole, nofun⟩

theorem sendAll_taken (sock : TcpSocket) (kernel : Kernel) (buf : List UInt8) :
    Taken buf (sock.sendAll kernel buf) := by
  obtain ⟨result, returned, taken⟩ := iterate_total (sock.sendStep kernel buf) (TakenUpTo buf)
    (fun result => Taken buf (result.1, result.2.taken)) (fun s => buf.length - s.off)
    (sock.sendStep_advances kernel buf) (sock.sendStep_finishes kernel buf) (buf.length + 1) {}
    ⟨Nat.zero_le _, rfl⟩ (Nat.lt_succ_self _)
  rw [sendAll, returned]
  exact taken

end TcpSocket

structure OrderGateway where
  sock : TcpSocket := {}
  connected : Bool := false
  sent : Nat := 0
  received : Nat := 0
  lastSendTsc : Nat := 0
  deriving DecidableEq, Repr

namespace OrderGateway

def connect (gw : OrderGateway) (fd : Int) (reached : Bool) : Bool × OrderGateway :=
  let r := TcpSocket.connectTo fd reached
  if !r.1 then (false, { gw with sock := r.2 })
  else (true, { gw with sock := r.2, connected := true })

def adopt (gw : OrderGateway) (fd : Int) : OrderGateway :=
  { gw with sock := gw.sock.adopt fd, connected := true }

/-- Whether the message was sent, what the kernel took of it, and the gateway. -/
def sendOrder (gw : OrderGateway) (kernel : Kernel) (message : List UInt8) (tsc : Nat) :
    Bool × List UInt8 × OrderGateway :=
  let r := gw.sock.sendAll kernel message
  if !r.1 then (false, r.2, { gw with lastSendTsc := tsc, connected := false })
  else (true, r.2, { gw with lastSendTsc := tsc, sent := u64 (gw.sent + 1) })

/-- The kernel returns `n`: bytes read, 0 when the peer has closed, negative when there is
nothing or an error. -/
def pollResponse (gw : OrderGateway) (n : Int) : OrderGateway :=
  if n > 0 then { gw with received := u64 (gw.received + 1) }
  else if n = 0 then { gw with connected := false }
  else gw

theorem sendOrder_cases (gw : OrderGateway) (kernel : Kernel) (message : List UInt8) (tsc : Nat) :
    (gw.sock.sendAll kernel message).1 = true ∧
        gw.sendOrder kernel message tsc = (true, (gw.sock.sendAll kernel message).2,
          { gw with lastSendTsc := tsc, sent := u64 (gw.sent + 1) }) ∨
      (gw.sock.sendAll kernel message).1 = false ∧
        gw.sendOrder kernel message tsc = (false, (gw.sock.sendAll kernel message).2,
          { gw with lastSendTsc := tsc, connected := false }) := by
  cases done : (gw.sock.sendAll kernel message).1 with
  | true => exact .inl ⟨rfl, by simp [sendOrder, done]⟩
  | false => exact .inr ⟨rfl, by simp [sendOrder, done]⟩

end OrderGateway

/-! ### The gateway and its connections -/

/-- A request with the buffer and the time it is encoded with. -/
structure Sending where
  request : Request
  buf : Buffer
  nowIst : Nat
  deriving DecidableEq, Repr

/-- What is handed to the gateway. -/
def Sending.bytes (enc : NnfEncoder) (sending : Sending) : List UInt8 :=
  sending.request.bytes enc sending.nowIst sending.buf

/-- A request in range, in a buffer with room for it. -/
def Sending.Ok (sending : Sending) : Prop :=
  sending.request.InRange ∧ kNnfMaxMsg ≤ sending.buf.length

/-- What the kernel has taken on a connection, and what was reported sent on it. -/
structure Connection where
  stream : List UInt8 := []
  reported : List Sending := []
  deriving DecidableEq, Repr

/-- The gateway, its encoder, the connection made last and the ones before it. -/
structure Link where
  enc : NnfEncoder
  gateway : OrderGateway := {}
  current : Connection := {}
  earlier : List Connection := []
  deriving DecidableEq, Repr

namespace Link

inductive Call where
  | connect (fd : Int) (reached : Bool)
  | adopt (fd : Int)
  | send (sending : Sending) (kernel : Kernel) (tsc : Nat)
  | poll (n : Int)

/-- A call and what it returns. -/
def step (link : Link) : Call → Bool × Link
  | .connect fd reached =>
    let r := link.gateway.connect fd reached
    if r.1 then
      (true, { link with gateway := r.2, current := {}, earlier := link.current :: link.earlier })
    else (false, { link with gateway := r.2 })
  | .adopt fd =>
    (true, { link with gateway := link.gateway.adopt fd, current := {}
                       earlier := link.current :: link.earlier })
  | .send sending kernel tsc =>
    let r := link.gateway.sendOrder kernel (sending.bytes link.enc) tsc
    (r.1, { link with
      gateway := r.2.2
      current :=
        { stream := link.current.stream ++ r.2.1
          reported := if r.1 then link.current.reported ++ [sending] else link.current.reported } })
  | .poll n => (decide (n > 0), { link with gateway := link.gateway.pollResponse n })

def new (enc : NnfEncoder) : Link := { enc := enc }

def after (enc : NnfEncoder) (calls : List Call) : Link := Machine.after step (new enc) calls

def connections (link : Link) : List Connection := link.current :: link.earlier

def Call.Ok : Call → Prop
  | .send sending _ _ => sending.Ok
  | _ => True

/-- A caller that looks at `connected()` before each send. -/
def Guarded (enc : NnfEncoder) (calls : List Call) : Prop :=
  ∀ before sending kernel tsc rest, calls = before ++ .send sending kernel tsc :: rest →
    (after enc before).gateway.connected = true

/-! ### What a call does to the connections -/

def Call.sending : Call → Option Sending
  | .send sending _ _ => some sending
  | _ => none

/-- What one call can do. Only a new connection raises the connected flag. -/
inductive Effect (link : Link) : Call → Bool × Link → Prop
  | opened (call : Call) (other : call.sending = none) (gw : OrderGateway)
      (same : gw.sent = link.gateway.sent) :
    Effect link call
      (true, { link with gateway := gw, current := {}, earlier := link.current :: link.earlier })
  | kept (call : Call) (other : call.sending = none) (result : Bool) (gw : OrderGateway)
      (same : gw.sent = link.gateway.sent)
      (lower : gw.connected = true → link.gateway.connected = true) :
    Effect link call (result, { link with gateway := gw })
  | sent (sending : Sending) (kernel : Kernel) (tsc : Nat) (gw : OrderGateway)
      (counted : gw.sent = u64 (link.gateway.sent + 1)) :
    Effect link (.send sending kernel tsc)
      (true, { link with gateway := gw, current :=
        { stream := link.current.stream ++ sending.bytes link.enc
          reported := link.current.reported ++ [sending] } })
  | torn (sending : Sending) (kernel : Kernel) (tsc : Nat) (gw : OrderGateway) (part : List UInt8)
      (front : part <+: sending.bytes link.enc) (less : part.length < (sending.bytes link.enc).length)
      (same : gw.sent = link.gateway.sent) (down : gw.connected = false) :
    Effect link (.send sending kernel tsc)
      (false, { link with gateway := gw, current :=
        { link.current with stream := link.current.stream ++ part } })

theorem step_effect (link : Link) (call : Call) : Effect link call (link.step call) := by
  cases call with
  | connect fd reached =>
    simp only [step]
    have unchanged : (link.gateway.connect fd reached).2.sent = link.gateway.sent := by
      simp only [OrderGateway.connect]
      split <;> rfl
    split
    · exact .opened _ rfl _ unchanged
    next failed =>
      refine .kept _ rfl _ _ unchanged fun up => ?_
      simp only [OrderGateway.connect] at failed up
      split at failed
      next refused => simpa only [if_pos refused] using up
      · exact absurd rfl failed
  | adopt fd => exact .opened _ rfl _ rfl
  | send sending kernel tsc =>
    have taken := link.gateway.sock.sendAll_taken kernel (sending.bytes link.enc)
    rcases link.gateway.sendOrder_cases kernel (sending.bytes link.enc) tsc with
      ⟨done, result⟩ | ⟨failed, result⟩
    · simp only [step, result, taken.all done, if_true]
      exact .sent _ _ _ _ rfl
    · simp only [step, result, Bool.false_eq_true, if_false]
      exact .torn _ _ _ _ _ taken.front (taken.less failed) rfl rfl
  | poll n =>
    refine .kept _ rfl _ _ ?_ ?_ <;> simp only [OrderGateway.pollResponse]
    · split
      · rfl
      · split <;> rfl
    · split
      · exact id
      · split
        · exact nofun
        · exact id

/-- A connection that carries exactly what was reported sent on it. -/
structure Readable (enc : NnfEncoder) (c : Connection) : Prop where
  carries : nnfFormat.Carries c.stream (c.reported.map (Sending.bytes enc))
  ok : ∀ sending ∈ c.reported, sending.Ok

/-- Every connection is readable, and while the flag is up the last one ends with a whole
message. -/
structure Sound (enc : NnfEncoder) (link : Link) : Prop where
  same : link.enc = enc
  readable : ∀ c ∈ link.connections, Readable enc c
  aligned : link.gateway.connected = true →
    link.current.stream = (link.current.reported.map (Sending.bytes enc)).flatten
  counted : link.gateway.sent = u64 ((link.connections.map fun c => c.reported.length).sum)

theorem readable_nil (enc : NnfEncoder) : Readable enc {} :=
  ⟨Format.Carries.nil, fun _ member => nomatch member⟩

theorem new_sound (enc : NnfEncoder) : Sound enc (new enc) where
  same := rfl
  readable c member := by
    obtain rfl : c = {} := by simpa [connections, new] using member
    exact readable_nil enc
  aligned := nofun
  counted := rfl

section Steps

variable {enc : NnfEncoder} {link : Link} {sending : Sending}

theorem whole_bytes (ok : sending.Ok) : nnfFormat.Whole (sending.bytes enc) := by
  rw [Sending.bytes, sending.request.bytes_eq sending.buf ok.2]
  exact sending.request.fields_whole

theorem Readable.whole {c : Connection} (readable : Readable enc c) :
    ∀ message ∈ c.reported.map (Sending.bytes enc), nnfFormat.Whole message := by
  intro message member
  obtain ⟨sending, reported, rfl⟩ := List.mem_map.mp member
  exact whole_bytes (readable.ok sending reported)

/-- A whole message behind whole messages. -/
theorem Readable.sent {c : Connection} (readable : Readable enc c)
    (aligned : c.stream = (c.reported.map (Sending.bytes enc)).flatten) (ok : sending.Ok) :
    Readable enc { stream := c.stream ++ sending.bytes enc, reported := c.reported ++ [sending] } := by
  refine ⟨?_, ?_⟩
  · have joined : c.stream ++ sending.bytes enc =
        ((c.reported ++ [sending]).map (Sending.bytes enc)).flatten := by
      simp [aligned]
    rw [joined]
    apply Format.carries_flatten
    rw [List.map_append]
    intro message member
    rcases List.mem_append.mp member with old | new
    · exact readable.whole message old
    · rw [List.mem_singleton.mp new]
      exact whole_bytes ok
  · exact List.forall_mem_append.mpr ⟨readable.ok, List.forall_mem_singleton.mpr ok⟩

/-- The start of a message behind whole messages. -/
theorem Readable.torn {c : Connection} (readable : Readable enc c)
    (aligned : c.stream = (c.reported.map (Sending.bytes enc)).flatten) (ok : sending.Ok)
    {part : List UInt8} (front : part <+: sending.bytes enc)
    (less : part.length < (sending.bytes enc).length) :
    Readable enc { c with stream := c.stream ++ part } :=
  ⟨⟨part, by rw [aligned], readable.whole, .inr ⟨_, whole_bytes ok, front, less⟩⟩, readable.ok⟩

/-- Whatever follows the start of a message is received as the rest of it. -/
theorem Readable.spliced {c : Connection} (readable : Readable enc c)
    (aligned : c.stream = (c.reported.map (Sending.bytes enc)).flatten) (ok : sending.Ok)
    {part : List UInt8} (front : part <+: sending.bytes enc) (header : kNnfHeaderSize ≤ part.length)
    {next : List UInt8} (fills : (sending.bytes enc).length ≤ part.length + next.length) :
    ∃ rest, nnfFormat.receive (c.stream ++ part ++ next) =
      c.reported.map (Sending.bytes enc) ++
        (part ++ next.take ((sending.bytes enc).length - part.length)) :: rest := by
  have inside := front.length_le
  have frame : nnfFormat.Whole (part ++ next.take ((sending.bytes enc).length - part.length)) := by
    apply (whole_bytes ok).splice front header
    rw [List.length_take]
    omega
  have received := Format.receive_append
    (List.forall_mem_append.mpr ⟨readable.whole, List.forall_mem_singleton.mpr frame⟩)
    (next.drop ((sending.bytes enc).length - part.length))
  have joined : (c.reported.map (Sending.bytes enc) ++
      [part ++ next.take ((sending.bytes enc).length - part.length)]).flatten ++
      next.drop ((sending.bytes enc).length - part.length) = c.stream ++ part ++ next := by
    simp [aligned]
  rw [joined] at received
  exact ⟨_, received.trans (List.append_assoc ..)⟩

theorem step_sound (sound : Sound enc link) (call : Call) (ok : call.Ok)
    (guard : ∀ sending kernel tsc, call = .send sending kernel tsc →
      link.gateway.connected = true) : Sound enc (link.step call).2 := by
  obtain ⟨same, readable, aligned, counted⟩ := sound
  obtain ⟨now, before⟩ := List.forall_mem_cons.mp readable
  have effect := link.step_effect call
  generalize link.step call = next at effect
  cases effect with
  | opened _ _ gw unchanged =>
    refine ⟨same, List.forall_mem_cons.mpr ⟨readable_nil enc, readable⟩, fun _ => rfl, ?_⟩
    simpa [connections, unchanged] using counted
  | kept _ _ _ gw unchanged lower =>
    exact ⟨same, readable, fun up => aligned (lower up), unchanged.trans counted⟩
  | sent sending kernel tsc gw one =>
    have whole := aligned (guard sending kernel tsc rfl)
    rw [same]
    refine ⟨rfl, List.forall_mem_cons.mpr ⟨now.sent whole ok, before⟩, fun _ => ?_, ?_⟩
    · simp [whole]
    · dsimp only
      rw [one, counted]
      simp only [connections, List.map_cons, List.sum_cons, List.length_append,
        List.length_singleton, u64]
      omega
  | torn sending kernel tsc gw part front less unchanged down =>
    have whole := aligned (guard sending kernel tsc rfl)
    rw [same] at front less
    refine ⟨same, List.forall_mem_cons.mpr ⟨now.torn whole ok front less, before⟩, fun up => ?_,
      unchanged.trans counted⟩
    exact absurd up (by simp [down])

end Steps

theorem after_snoc (enc : NnfEncoder) (calls : List Call) (call : Call) :
    after enc (calls ++ [call]) = ((after enc calls).step call).2 :=
  Machine.after_append step (new enc) calls [call]

theorem Guarded.front {enc : NnfEncoder} {first second : List Call}
    (guarded : Guarded enc (first ++ second)) : Guarded enc first := by
  intro before sending kernel tsc rest split
  exact guarded before sending kernel tsc (rest ++ second) (by rw [split]; simp)

theorem run_sound {enc : NnfEncoder} {calls : List Call} (ok : ∀ call ∈ calls, call.Ok)
    (guarded : Guarded enc calls) : Sound enc (after enc calls) := by
  induction calls using List.reverseRecOn with
  | nil => exact new_sound enc
  | append_singleton calls call ih =>
    obtain ⟨earlier, last⟩ := List.forall_mem_append.mp ok
    rw [after_snoc]
    apply step_sound (ih earlier guarded.front) call (last call (List.mem_singleton.mpr rfl))
    rintro sending kernel tsc rfl
    exact guarded calls sending kernel tsc [] rfl

/-- With a caller that sends only while the gateway is connected, whatever the kernel does and
however connections come and go: of what arrives on a connection the receiver reads the first
of the requests that were reported sent on it, and of the whole stream all of them. While the
flag is up the stream of the last connection ends with a whole message. -/
theorem order_stream_received (enc : NnfEncoder) (config : enc.InRange) (calls : List Call)
    (ok : ∀ call ∈ calls, call.Ok) (guarded : Guarded enc calls) :
    (∀ c ∈ (after enc calls).connections,
      (nnfFormat.receive c.stream).map readRequest =
        c.reported.map (fun sending => some (sending.request.meaning enc)) ∧
      ∀ arrived, arrived <+: c.stream → ∃ count, (nnfFormat.receive arrived).map readRequest =
        (c.reported.take count).map fun sending => some (sending.request.meaning enc)) ∧
    ((after enc calls).gateway.connected = true →
      (after enc calls).current.stream =
        ((after enc calls).current.reported.map (Sending.bytes enc)).flatten) ∧
    (after enc calls).gateway.sent =
      u64 (((after enc calls).connections.map fun c => c.reported.length).sum) := by
  have sound := run_sound ok guarded
  refine ⟨fun c member => ?_, sound.aligned, sound.counted⟩
  obtain ⟨carries, inRange⟩ := sound.readable c member
  have understood (sending : Sending) (here : sending ∈ c.reported) :
      readRequest (sending.bytes enc) = some (sending.request.meaning enc) := by
    have fine := inRange sending here
    rw [Sending.bytes, sending.request.bytes_eq sending.buf fine.2]
    exact sending.request.readRequest_fields config fine.1
  have read (chosen : List Sending) (part : ∀ sending ∈ chosen, sending ∈ c.reported) :
      (chosen.map (Sending.bytes enc)).map readRequest =
        chosen.map fun sending => some (sending.request.meaning enc) := by
    rw [List.map_map]
    exact List.map_congr_left fun sending here => understood sending (part sending here)
  refine ⟨?_, fun arrived front => ?_⟩
  · rw [carries.receive, read _ fun _ here => here]
  · obtain ⟨count, first⟩ := carries.arrived front
    refine ⟨count, ?_⟩
    rw [first.receive, ← List.map_take, read _ fun _ here => List.mem_of_mem_take here]

private def sampleTrader : NnfEncoder := { traderId := 7 }

private def takesAll : Kernel := ⟨fun _ offered => offered, fun _ _ => Int.le_refl _⟩

/-- The first call takes at most `n` bytes and the second fails. -/
private def takesOnce (n : Nat) : Kernel where
  answer call offered := if call = 0 then min n offered else -1
  bounded call offered := by
    split <;> omega

private def sampleSending (request : Request) : Sending :=
  { request := request, buf := List.replicate 256 170, nowIst := 0 }

private theorem sampleSending_ok (request : Request) (range : request.InRange) :
    (sampleSending request).Ok := ⟨range, Nat.le_of_eq List.length_replicate.symm⟩

private theorem guarded_nil (enc : NnfEncoder) : Guarded enc [] := by
  intro before _ _ _ rest split
  exact absurd split (by simp)

private theorem Guarded.snoc {enc : NnfEncoder} {calls : List Call} (guarded : Guarded enc calls)
    (call : Call) (checked : call.sending = none ∨ (after enc calls).gateway.connected = true) :
    Guarded enc (calls ++ [call]) := by
  intro before sending kernel tsc rest split
  rcases List.eq_nil_or_concat rest with rfl | ⟨rest, last, rfl⟩
  · obtain ⟨rfl, equal⟩ := List.append_inj' split rfl
    cases equal
    exact checked.resolve_left nofun
  · rw [List.concat_eq_append, ← List.cons_append, ← List.append_assoc] at split
    exact guarded before sending kernel tsc rest (List.append_inj' split rfl).1

/-- A heartbeat, and a sign-off that is cut after 20 bytes. -/
private def sampleCalls : List Call :=
  [.adopt 3, .send (sampleSending .heartbeat) takesAll 10] ++
    [.send (sampleSending .signOff) (takesOnce 20) 11]

private theorem sampleCalls_guarded : Guarded sampleTrader sampleCalls :=
  (((guarded_nil sampleTrader).snoc (.adopt 3) (.inl rfl)).snoc
    (.send (sampleSending .heartbeat) takesAll 10) (.inr rfl)).snoc
    (.send (sampleSending .signOff) (takesOnce 20) 11) (.inr (by decide +kernel))

private theorem sampleCalls_ok : ∀ call ∈ sampleCalls, call.Ok := by
  simp only [sampleCalls, List.forall_mem_append, List.forall_mem_cons]
  exact ⟨⟨trivial, sampleSending_ok .heartbeat trivial, List.forall_mem_nil _⟩,
    sampleSending_ok .signOff trivial, List.forall_mem_nil _⟩

theorem torn_sign_off_not_read :
    (after sampleTrader sampleCalls).current.stream.length = 52 ∧
      (nnfFormat.receive (after sampleTrader sampleCalls).current.stream).map readRequest =
        [some (.heartbeat 7)] := by
  refine ⟨by decide +kernel, ?_⟩
  rw [((order_stream_received sampleTrader ⟨by decide, by decide⟩ sampleCalls sampleCalls_ok
    sampleCalls_guarded).1 _ List.mem_cons_self).1]
  decide +kernel

/-- `sendOrder` does not look at the flag. A message that is sent after a torn one whose header
has come through is reported sent like any other, but the receiver takes its first bytes for the
rest of the torn message. -/
theorem sent_into_torn (enc : NnfEncoder) (calls : List Call) (sending next : Sending)
    (kernel kernel' : Kernel) (tsc tsc' : Nat)
    (ok : ∀ call ∈ calls ++ [.send sending kernel tsc], call.Ok)
    (guarded : Guarded enc (calls ++ [.send sending kernel tsc])) (part : List UInt8)
    (failed : ((after enc calls).step (.send sending kernel tsc)).1 = false)
    (torn : (after enc (calls ++ [.send sending kernel tsc])).current.stream =
      (after enc calls).current.stream ++ part)
    (header : kNnfHeaderSize ≤ part.length)
    (sent : ((after enc (calls ++ [.send sending kernel tsc])).step (.send next kernel' tsc')).1 = true)
    (fills : (sending.bytes enc).length ≤ part.length + (next.bytes enc).length) :
    let link := after enc (calls ++ [.send sending kernel tsc, .send next kernel' tsc'])
    link.current.reported = (after enc calls).current.reported ++ [next] ∧
    ∃ rest, nnfFormat.receive link.current.stream =
      (after enc calls).current.reported.map (Sending.bytes enc) ++
        (part ++ (next.bytes enc).take ((sending.bytes enc).length - part.length)) :: rest := by
  obtain ⟨same, readable, aligned, -⟩ := run_sound (List.forall_mem_append.mp ok).1 guarded.front
  have stream := aligned (guarded calls sending kernel tsc [] rfl)
  have message : sending.Ok := ok (.send sending kernel tsc) (by simp)
  have split : calls ++ [.send sending kernel tsc, .send next kernel' tsc'] =
      calls ++ [.send sending kernel tsc] ++ [.send next kernel' tsc'] := by simp
  rw [split, after_snoc _ (calls ++ _)]
  rw [after_snoc] at torn sent ⊢
  generalize after enc calls = link at *
  have first := link.step_effect (.send sending kernel tsc)
  generalize link.step (.send sending kernel tsc) = middle at *
  cases first with
  | opened _ other => cases other
  | kept _ other => cases other
  | sent => cases failed
  | torn _ _ _ gw taken front less _ _ =>
    obtain rfl : taken = part := List.append_cancel_left torn
    have second := step_effect { link with gateway := gw, current :=
      { link.current with stream := link.current.stream ++ taken } } (.send next kernel' tsc')
    dsimp only at sent ⊢
    generalize step _ (.send next kernel' tsc') = last at *
    cases second with
    | opened _ other => cases other
    | kept _ other => cases other
    | torn => cases sent
    | sent =>
      rw [same] at front
      dsimp only
      rw [same]
      exact ⟨rfl, (readable _ List.mem_cons_self).spliced stream message front header fills⟩

private def tornCancel : Sending := sampleSending (.cancel 1 2 3)

/-- A cancel that is cut after 40 of its 52 bytes takes 12 bytes of the heartbeat behind it. -/
theorem heartbeat_into_torn_cancel :
    ∃ rest, nnfFormat.receive (after sampleTrader [.adopt 3, .send tornCancel (takesOnce 40) 10,
        .send (sampleSending .heartbeat) takesAll 11]).current.stream =
      ((tornCancel.bytes sampleTrader).take 40 ++
        ((sampleSending .heartbeat).bytes sampleTrader).take 12) :: rest :=
  (sent_into_torn sampleTrader [.adopt 3] tornCancel (sampleSending .heartbeat) (takesOnce 40)
    takesAll 10 11
    (List.forall_mem_cons.mpr ⟨trivial, List.forall_mem_singleton.mpr
      (sampleSending_ok (.cancel 1 2 3) (by simp [Request.InRange, FitsI64]))⟩)
    (((guarded_nil sampleTrader).snoc (.adopt 3) (.inl rfl)).snoc _ (.inr rfl))
    ((tornCancel.bytes sampleTrader).take 40) (by decide +kernel) (by decide +kernel)
    (by decide +kernel) (by decide +kernel) (by decide +kernel)).2

end Link

end NseHft
