import Ubi2.Runtime.Basic

namespace Ubi2.Runtime

open Lib

inductive FeeError where
  | InsufficientForFee (have_ fee : U128)
deriving DecidableEq, Repr

def FeeError.display : FeeError → String
  | .InsufficientForFee h fee =>
    s!"insufficient balance for gas fee: have {h.toNat}, fee {fee.toNat}"

inductive StreamStatus where
  | Active
  | Stopped (at_ : U64)
  | Completed
deriving DecidableEq, Repr

structure Stream where
  id : StreamId
  from_ : Address
  to_ : Address
  rate : U128
  deposit : U128
  drawn : U128
  startedAt : U64
  status : StreamStatus
deriving DecidableEq, Repr

namespace Stream

-- A zero rate never drains by flow, and then the stream ends where it started.
def tEnd (s : Stream) : U64 :=
  if s.rate = 0#128 then s.startedAt
  else
    let whole := s.deposit / s.rate
    let rem := s.deposit % s.rate
    Word.satAdd (Word.satAdd s.startedAt (Word.satOfNat 64 whole.toNat))
      (if 0#128 < rem then 1#64 else 0#64)

def endOrStop (s : Stream) : U64 :=
  match s.status with
  | .Stopped at_ => min at_ s.tEnd
  | _ => s.tEnd

-- The gross lifetime payout at `now`, capped at the deposit.
def accrued (s : Stream) (now : U64) : U128 :=
  let until_ := min now s.endOrStop
  let elapsed := (Word.satSub until_ s.startedAt).setWidth 128
  min (Word.satMul s.rate elapsed) s.deposit

end Stream

inductive StreamError where
  | SelfStream
  | ZeroRate
  | ZeroDeposit
  | RateTooHigh (rate max : U128)
  | InsufficientBalance (have_ need : U128)
  | NoSuchStream (id : StreamId)
  | NotSender
  | NotActive
deriving DecidableEq, Repr

def StreamError.display : StreamError → String
  | .SelfStream => "stream sender and recipient must differ"
  | .ZeroRate => "stream rate must be > 0"
  | .ZeroDeposit => "stream deposit must be > 0"
  | .RateTooHigh rate max => s!"stream rate {rate.toNat} exceeds MAX_RATE {max.toNat}"
  | .InsufficientBalance h need =>
    s!"insufficient balance for deposit: have {h.toNat}, need {need.toNat}"
  | .NoSuchStream id => s!"no such stream: {id}"
  | .NotSender => "only the stream sender may stop it"
  | .NotActive => "stream is not active"

structure Account where
  address : Address
  verified : Bool := false
  verifiedAt : U64 := 0#64
  settledBalance : U128 := 0#128
  lastSettledAt : U64 := 0#64
  nonce : U64 := 0#64
deriving DecidableEq, Repr

namespace Account

def pendingEmission (a : Account) (now : U64) : U128 :=
  if !a.verified then 0#128
  else
    let since := max a.lastSettledAt a.verifiedAt
    let elapsed := (Word.satSub now since).setWidth 128
    Word.satMul UBI elapsed / EMISSION_PERIOD_SECS.setWidth 128

def balance (a : Account) (now : U64) : U128 :=
  Word.satAdd a.settledBalance (a.pendingEmission now)

def settle (a : Account) (now : U64) : Account :=
  { a with
    settledBalance := Word.satAdd a.settledBalance (a.pendingEmission now)
    lastSettledAt := if a.lastSettledAt < now then now else a.lastSettledAt }

end Account

inductive TransferError where
  | BadNonce (expected got : U64)
  | InsufficientBalance (have_ need : U128)
deriving DecidableEq, Repr

def TransferError.display : TransferError → String
  | .BadNonce expected got =>
    s!"invalid nonce: expected {expected.toNat}, got {got.toNat}"
  | .InsufficientBalance h need =>
    s!"insufficient balance: have {h.toNat}, need {need.toNat}"

-- An index bucket is only ever read sorted, so the buckets of one index are one set
-- of pairs, ordered by account and then by stream.
abbrev StreamIndex := Table (toLex : Address × StreamId → Lex (Address × StreamId))

-- The account and stream part of `MemState`.
structure Ledger where
  accounts : Table Account.address := ∅
  streams : Table Stream.id := ∅
  outgoingIdx : StreamIndex := ∅
  incomingIdx : StreamIndex := ∅
  nextId : StreamId := 0
deriving DecidableEq

namespace Ledger

def get (l : Ledger) (addr : Address) : Option Account :=
  l.accounts.get addr

def put (l : Ledger) (account : Account) : Ledger :=
  { l with accounts := l.accounts.put account }

-- `state.get(addr).unwrap_or(Account { address: addr, ..Default::default() })`
def account (l : Ledger) (addr : Address) : Account :=
  (l.get addr).getD { address := addr }

def getStream (l : Ledger) (id : StreamId) : Option Stream :=
  l.streams.get id

-- The indexes learn a stream when its id is first inserted.
def putStream (l : Ledger) (stream : Stream) : Ledger :=
  if l.streams.contains stream.id then
    { l with streams := l.streams.put stream }
  else
    { l with
      streams := l.streams.put stream
      outgoingIdx := l.outgoingIdx.put (stream.from_, stream.id)
      incomingIdx := l.incomingIdx.put (stream.to_, stream.id) }

def indexed (idx : StreamIndex) (addr : Address) : List StreamId :=
  (idx.rows.filter (fun e => e.1 = addr)).map (fun e => e.2)

def outgoing (l : Ledger) (addr : Address) : List StreamId :=
  indexed l.outgoingIdx addr

def incoming (l : Ledger) (addr : Address) : List StreamId :=
  indexed l.incomingIdx addr

def nextStreamId (l : Ledger) : StreamId × Ledger :=
  (l.nextId, { l with nextId := l.nextId + 1 })

def balance (l : Ledger) (addr : Address) (now : U64) : U128 :=
  let base := ((l.get addr).map (fun a => a.balance now)).getD 0#128
  let inflow := (((l.incoming addr).filterMap l.getStream).map
    (fun s => Word.satSub (s.accrued now) s.drawn)).foldl Word.satAdd 0#128
  Word.satAdd base inflow

def nonce (l : Ledger) (addr : Address) : U64 :=
  ((l.get addr).map Account.nonce).getD 0#64

def settleStream (l : Ledger) (id : StreamId) (now : U64) : U128 × Ledger :=
  match l.getStream id with
  | none => (0#128, l)
  | some stream =>
    let owed := Word.satSub (stream.accrued now) stream.drawn
    let recipient := (l.account stream.to_).settle now
    let paid := 0#128 < owed
    let recipient :=
      if paid then
        { recipient with settledBalance := Word.satAdd recipient.settledBalance owed }
      else recipient
    let stream :=
      if paid then { stream with drawn := Word.satAdd stream.drawn owed } else stream
    let l := l.put recipient
    -- a stopped stream that is fully drained keeps its `Stopped` status
    let stream :=
      if stream.deposit ≤ stream.drawn ∧ stream.status = .Active then
        { stream with status := .Completed }
      else stream
    (owed, l.putStream stream)

def settleIncoming (l : Ledger) (addr : Address) (now : U64) : Ledger :=
  (l.incoming addr).foldl (fun l id => (l.settleStream id now).2) l

-- The incoming streams are folded in before the check, and stay folded in when the
-- check fails.
def chargeFee (l : Ledger) (from_ : Address) (gas : U64) (now : U64) :
    Except FeeError U128 × Ledger :=
  let fee := feeForGas gas
  let l := l.settleIncoming from_ now
  let sender := (l.account from_).settle now
  if sender.settledBalance < fee then
    (.error (.InsufficientForFee sender.settledBalance fee), l)
  else
    let sender := { sender with settledBalance := sender.settledBalance - fee }
    if fee = 0#128 then
      (.ok 0#128, l.put sender)
    else
      let treasury := (l.account TREASURY).settle now
      let treasury :=
        { treasury with settledBalance := Word.satAdd treasury.settledBalance fee }
      (.ok fee, (l.put sender).put treasury)

def applyTransfer (l : Ledger) (from_ to_ : Address) (value : U128) (nonce : U64)
    (now : U64) : Except TransferError Unit × Ledger :=
  let l := l.settleIncoming from_ now
  let sender := (l.account from_).settle now
  if nonce ≠ sender.nonce then
    (.error (.BadNonce sender.nonce nonce), l)
  else if sender.settledBalance < value then
    (.error (.InsufficientBalance sender.settledBalance value), l)
  else if from_ = to_ then
    (.ok (), l.put { sender with nonce := sender.nonce + 1#64 })
  else
    let recipient := (l.account to_).settle now
    let sender :=
      { sender with
        settledBalance := sender.settledBalance - value
        nonce := sender.nonce + 1#64 }
    let recipient :=
      { recipient with settledBalance := Word.satAdd recipient.settledBalance value }
    (.ok (), (l.put sender).put recipient)

def openStream (l : Ledger) (from_ to_ : Address) (rate deposit : U128) (now : U64) :
    Except StreamError StreamId × Ledger :=
  if from_ = to_ then (.error .SelfStream, l)
  else if rate = 0#128 then (.error .ZeroRate, l)
  else if deposit = 0#128 then (.error .ZeroDeposit, l)
  else if MAX_RATE < rate then (.error (.RateTooHigh rate MAX_RATE), l)
  else
    let sender := (l.account from_).settle now
    if sender.settledBalance < deposit then
      (.error (.InsufficientBalance sender.settledBalance deposit), l)
    else
      let sender := { sender with settledBalance := sender.settledBalance - deposit }
      let (id, l) := l.nextStreamId
      let stream : Stream :=
        { id := id, from_ := from_, to_ := to_, rate := rate, deposit := deposit
          drawn := 0#128, startedAt := now, status := .Active }
      (.ok id, (l.put sender).putStream stream)

-- `none` is the panic of the `expect` on the stream that is read again.
def stopStream (l : Ledger) (id : StreamId) (caller : Address) (now : U64) :
    Option (Except StreamError U128 × Ledger) :=
  match l.getStream id with
  | none => some (.error (.NoSuchStream id), l)
  | some stream =>
    if stream.from_ ≠ caller then some (.error .NotSender, l)
    else if stream.status ≠ .Active then some (.error .NotActive, l)
    else
      let l := (l.settleStream id now).2
      match l.getStream id with
      | none => none
      | some stream =>
        let refund := Word.satSub stream.deposit stream.drawn
        let sender := (l.account stream.from_).settle now
        let sender :=
          { sender with settledBalance := Word.satAdd sender.settledBalance refund }
        let l := l.put sender
        some (.ok refund, l.putStream { stream with status := .Stopped now })

end Ledger

end Ubi2.Runtime
