import Ubi2.Runtime.Ledger.Streaming

namespace Ubi2.Runtime

open Lib

namespace Stream

variable {s : Stream} {now : U64}

-- What an open stream still holds of its deposit.
def locked (s : Stream) : Nat :=
  if s.status = .Active then s.deposit.toNat - s.drawn.toNat else 0

-- The part of it that has not accrued to the recipient either.
def remainder (s : Stream) (now : U64) : Nat :=
  if s.status = .Active then s.deposit.toNat - max s.drawn.toNat (s.accrued now).toNat else 0

theorem Sound.owed_add_remainder (h : s.Sound) (now : U64) :
    (s.owed now).toNat + s.remainder now = s.locked := by
  have haccrued := BitVec.le_def.mp (s.accrued_le_deposit now)
  unfold remainder locked
  by_cases hactive : s.status = .Active
  · rw [if_pos hactive, if_pos hactive, toNat_owed]
    omega
  · rw [if_neg hactive, if_neg hactive, h.owed_of_ended hactive now]
    rfl

-- A settlement takes what it pays out of the deposit.
theorem Sound.locked_drawTo (h : s.Sound) (now : U64) :
    (s.drawTo now).locked + (s.owed now).toNat = s.locked := by
  have hdrawn := BitVec.le_def.mp h.drawn_le
  have haccrued := BitVec.le_def.mp (s.accrued_le_deposit now)
  have hmax := s.toNat_drawTo_drawn now
  unfold locked
  rw [drawTo_deposit]
  by_cases hactive : s.status = .Active
  · rw [if_pos hactive, toNat_owed]
    split_ifs with hopen
    · omega
    · -- the stream is completed, and all of its deposit is drawn
      have hstatus := s.drawTo_status now
      rw [hactive, ← drawTo_drawn] at hstatus
      split_ifs at hstatus with hfull
      · have hdone := BitVec.le_def.mp hfull.1
        omega
      · exact absurd hstatus hopen
  · rw [h.drawTo_of_ended hactive, h.owed_of_ended hactive now, if_neg hactive]
    rfl

-- A stop of a stream that has paid out what has accrued.
theorem Sound.closed (h : s.Sound) (hdone : s.accrued now ≤ s.drawn)
    (hopen : s.status = .Active ∨ s.status = .Completed ∧ s.deposit ≤ s.drawn) :
    ({ s with status := .Stopped now } : Stream).Sound := by
  refine ⟨h.drawn_le, fun _ t => ?_, by rintro ⟨⟩⟩
  rcases hopen with hactive | ⟨-, hfull⟩
  · exact (accrued_stopped_le hactive).trans hdone
  · exact (accrued_le_deposit _ t).trans hfull

-- What a stream that can be stopped gives back.
theorem locked_of_open (hopen : s.status = .Active ∨ s.status = .Completed ∧ s.deposit ≤ s.drawn) :
    s.locked = (Word.satSub s.deposit s.drawn).toNat := by
  rw [Word.toNat_satSub, locked]
  rcases hopen with hactive | ⟨hcompleted, hfull⟩
  · rw [if_pos hactive]
  · rw [hcompleted, if_neg (by simp), Nat.sub_eq_zero_of_le (BitVec.le_def.mp hfull)]

theorem locked_opened (id : StreamId) (a b : Address) (rate deposit : U128) :
    (opened id a b rate deposit now).locked = deposit.toNat := by
  simp [locked, opened]

end Stream

namespace Ledger

variable {now : U64} {w : Authority} {l l' : Ledger}

-- Every stream is sound, runs between two accounts, and is listed for the one that it pays;
-- what is listed as opened by an account is a stream from it.
structure Booked (l : Ledger) : Prop extends Indexed l where
  sound : ∀ id s, l.getStream id = some s → s.Sound
  distinct : ∀ id s, l.getStream id = some s → s.from_ ≠ s.to_
  recorded : ∀ id s, l.getStream id = some s → id ∈ l.incoming s.to_
  opener : ∀ a, ∀ id ∈ l.outgoing a, ∃ s, l.getStream id = some s ∧ s.from_ = a

namespace Booked

theorem empty : ({} : Ledger).Booked := by
  refine ⟨Indexed.empty, ?_, ?_, ?_, ?_⟩
  · intro id s hs
    cases hs
  · intro id s hs
    cases hs
  · intro id s hs
    cases hs
  · intro a id hid
    cases hid

theorem put (h : l.Booked) (x : Account) : (l.put x).Booked :=
  ⟨h.toIndexed.put x, h.sound, h.distinct, h.recorded, h.opener⟩

-- A stream that is written again runs between the same accounts.
theorem putStream (h : l.Booked) {s t : Stream} (hs : l.getStream s.id = some t)
    (hfrom : s.from_ = t.from_) (hto : s.to_ = t.to_) (hsound : s.Sound) :
    (l.putStream s).Booked := by
  have hincoming : (l.putStream s).incoming = l.incoming := by
    rw [putStream_of_some l hs]
    rfl
  have houtgoing : (l.putStream s).outgoing = l.outgoing := by
    rw [putStream_of_some l hs]
    rfl
  refine ⟨h.toIndexed.putStream hs hto, ?_, ?_, ?_, ?_⟩
  · intro id r hr
    rw [getStream_putStream] at hr
    split_ifs at hr
    · exact Option.some.inj hr ▸ hsound
    · exact h.sound id r hr
  · intro id r hr
    rw [getStream_putStream] at hr
    split_ifs at hr
    · rw [← Option.some.inj hr, hfrom, hto]
      exact h.distinct s.id t hs
    · exact h.distinct id r hr
  · intro id r hr
    rw [hincoming]
    rw [getStream_putStream] at hr
    split_ifs at hr with heq
    · rw [← Option.some.inj hr, hto, ← heq]
      exact h.recorded s.id t hs
    · exact h.recorded id r hr
  · intro a id hid
    rw [houtgoing] at hid
    obtain ⟨r, hr, hopener⟩ := h.opener a id hid
    rw [getStream_putStream]
    split_ifs with heq
    · subst heq
      rw [hs] at hr
      cases hr
      exact ⟨s, rfl, hfrom.trans hopener⟩
    · exact ⟨r, hr, hopener⟩

theorem getStream_nextId (h : l.Booked) : l.getStream l.nextId = none := by
  cases hget : l.getStream l.nextId with
  | none => rfl
  | some s => exact absurd (h.assigned _ s hget) (lt_irrefl _)

theorem opened (h : l.Booked) {a b : Address} (hne : a ≠ b) (rate deposit : U128) :
    (({ l with nextId := l.nextId + 1 } : Ledger).putStream
      (Stream.opened l.nextId a b rate deposit now)).Booked := by
  have hnew : ({ l with nextId := l.nextId + 1 } : Ledger).getStream
      (Stream.opened l.nextId a b rate deposit now).id = none := h.getStream_nextId
  refine ⟨h.toIndexed.opened a b rate deposit, ?_, ?_, ?_, ?_⟩
  · intro id r hr
    rw [getStream_putStream] at hr
    split_ifs at hr
    · exact Option.some.inj hr ▸ Stream.sound_opened l.nextId a b rate deposit now
    · exact h.sound id r hr
  · intro id r hr
    rw [getStream_putStream] at hr
    split_ifs at hr
    · rw [← Option.some.inj hr]
      exact hne
    · exact h.distinct id r hr
  · intro id r hr
    rw [getStream_putStream] at hr
    rw [putStream_of_none _ hnew, incoming, mem_indexed, Table.mem_put]
    split_ifs at hr with heq
    · rw [← Option.some.inj hr, ← heq]
      exact Or.inl rfl
    · refine Or.inr ⟨mem_indexed.mp (h.recorded id r hr), fun hkey => heq ?_⟩
      exact (congrArg Prod.snd (toLex_inj.mp hkey)).symm
  · intro c id hid
    rw [getStream_putStream]
    rw [putStream_of_none _ hnew, outgoing, mem_indexed, Table.mem_put] at hid
    rcases hid with heq | ⟨hold, -⟩
    · have hpair := Prod.mk.inj heq
      exact ⟨_, if_pos hpair.2.symm, hpair.1.symm⟩
    · obtain ⟨r, hr, hopener⟩ := h.opener c id (mem_indexed.mpr hold)
      have hid : (Stream.opened l.nextId a b rate deposit now).id ≠ id :=
        (h.assigned id r hr).ne'
      rw [if_neg hid]
      exact ⟨r, hr, hopener⟩

theorem move (h : l.Booked) (hmove : Move now w l l') : l'.Booked := by
  cases hmove with
  | settle a => exact h.put _
  | pay a b v ha hne hv => exact (h.put _).put _
  | mint v ha => exact h.put _
  | renonce a n ha => exact h.put _
  | lock a b rate deposit ha hne hv =>
    exact (h.put ((l.account a).debit deposit)).opened hne rate deposit
  | draw s hs =>
    exact (h.put _).putStream (t := s) (by rw [Stream.drawTo_id]; exact hs)
      (Stream.drawTo_from s now) (Stream.drawTo_to s now) ((h.sound _ s hs).drawTo now)
  | close s hs ha hdone hopen =>
    exact (h.put _).putStream (t := s) hs rfl rfl ((h.sound _ s hs).closed hdone hopen)
  | gate a v t ha => exact h.put _

theorem moves (h : l.Booked) (hmoves : Moves now w l l') : l'.Booked :=
  Run.invariant (fun _ _ hmove hl => hl.move hmove) hmoves h

-- The streams listed for an account are those that pay it.
theorem streamsTo_perm (h : l.Booked) (a : Address) :
    (l.streamsTo a).Perm (l.streams.rows.filter (fun s => s.to_ = a)) := by
  have hnodup : (l.streamsTo a).Nodup := by
    refine List.Nodup.filterMap ?_ (l.nodup_incoming a)
    intro id id' s hs hs'
    exact (getStream_id l hs).symm.trans (getStream_id l hs')
  rw [List.perm_ext_iff_of_nodup hnodup (l.streams.nodup_rows.filter _)]
  intro s
  rw [streamsTo, List.mem_filterMap, List.mem_filter, decide_eq_true_eq]
  constructor
  · rintro ⟨id, hid, hs⟩
    exact ⟨Table.mem_of_get hs, h.pays a id hid s hs⟩
  · rintro ⟨hmem, rfl⟩
    have hs : l.getStream s.id = some s := Table.get_of_mem hmem
    exact ⟨s.id, h.recorded s.id s hs, hs⟩

end Booked

end Ledger

end Ubi2.Runtime
