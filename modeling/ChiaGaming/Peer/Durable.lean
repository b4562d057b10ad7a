import ChiaGaming.Peer.Order

namespace ChiaGaming

namespace Peer

open Relation (ReflTransGen)

variable {G A : Type} {Γ : Traffic} {host : Host}

/-! What leaves a page has been stored. -/

/-- Any message may come; what leaves is numbered at most as the history is long. -/
def Traffic.upTo (h : History) : Traffic := ⟨fun _ _ => True, fun _ => True, (· ≤ h.numbered.length), fun _ => True⟩

/-- Of what a controller has numbered and taken, the storage has `h`; the rest waits for the flush. -/
structure Stored (h : History) (s : SessionController G) : Prop where
  covered : ∀ frame ∈ s.sent, ∀ n msg, deliverRawPeerMessage frame = some (.message n msg) → n ≤ h.numbered.length
  messageNumber : s.cradle.isSome → s.messageNumber = s.history.numbered.length + 1
  remoteNumber : s.cradle.isSome → s.remoteNumber = s.history.consumed.length
  blank : s.cradle = none → s.needsImmediateDurability = false
  unacked : ∀ e ∈ s.unackedMessages, e.msgno ≤ s.history.numbered.length
  waiting : s.protocolStopped = false → ∀ n, h.numbered.length < n → n ≤ s.history.numbered.length →
    ∃ e ∈ s.pendingOutboundSends, e.msgno = n
  acks : s.protocolStopped = false → ∀ n ∈ s.pendingAcks, n ≤ s.history.consumed.length
  needs : s.protocolStopped = false → s.needsImmediateDurability = false →
    s.pendingOutboundSends = [] ∧ s.pendingAcks = [] ∧ s.history.consumed.length ≤ h.consumed.length

section Move

variable {h : History} {s s' : SessionController G}

/-- With nothing waiting, all that lacks an acknowledgement is stored. -/
theorem Stored.leaves (hs : Stored h s) (hstop : s.protocolStopped = false) (hempty : s.pendingOutboundSends = []) :
    ∀ e ∈ s.unackedMessages, e.msgno ≤ h.numbered.length := by
  intro e he
  by_contra hlt
  obtain ⟨e', he', -⟩ := hs.waiting hstop e.msgno (Nat.lt_of_not_le hlt) (hs.unacked e he)
  rw [hempty] at he'
  cases he'

theorem Quiet.stored (hquiet : Quiet s s') (hs : Stored h s) : Stored h s' where
  covered := by
    rw [hquiet.sent]
    exact hs.covered
  messageNumber hsome := by
    rw [hquiet.messageNumber, hquiet.history]
    exact hs.messageNumber (hquiet.cradle ▸ hsome)
  remoteNumber hsome := by
    rw [hquiet.remoteNumber, hquiet.history]
    exact hs.remoteNumber (hquiet.cradle ▸ hsome)
  blank hnone := by
    rw [hquiet.needsImmediateDurability]
    exact hs.blank (Moves.none (Γ := Traffic.any) hquiet.moves hnone)
  unacked := by
    rw [hquiet.unackedMessages, hquiet.history]
    exact hs.unacked
  waiting := by
    rw [hquiet.protocolStopped, hquiet.history, hquiet.pendingOutboundSends]
    exact hs.waiting
  acks := by
    rw [hquiet.protocolStopped, hquiet.history, hquiet.pendingAcks]
    exact hs.acks
  needs := by
    rw [hquiet.protocolStopped, hquiet.history, hquiet.pendingOutboundSends, hquiet.pendingAcks,
      hquiet.needsImmediateDurability]
    exact hs.needs

theorem Stored.number (hs : Stored h s) (msg : Bytes) (hsome : s.cradle.isSome) : Stored h (s.numberMessage msg) := by
  have hnext := hs.messageNumber hsome
  have hlength : (s.history.numbered ++ [msg]).length = s.history.numbered.length + 1 := by
    rw [List.length_append, List.length_singleton]
  have hstored (needs : Bool) (hneeds : s.protocolStopped = false → needs = true) : Stored h { s with
      messageNumber := s.messageNumber + 1
      unackedMessages := s.unackedMessages ++ [⟨s.messageNumber, msg⟩]
      pendingOutboundSends := s.pendingOutboundSends ++ [⟨s.messageNumber, msg⟩]
      history := { s.history with numbered := s.history.numbered ++ [msg] }
      needsImmediateDurability := needs } :=
    { covered := hs.covered
      messageNumber := fun _ => by
        dsimp only
        rw [hnext, hlength]
      remoteNumber := hs.remoteNumber
      blank := fun hnone => by
        rw [show s.cradle = none from hnone] at hsome
        cases hsome
      unacked := fun e he => by
        dsimp only
        rw [hlength]
        rcases List.mem_append.mp he with he | he
        · exact (hs.unacked e he).trans (Nat.le_succ _)
        · rw [List.mem_singleton.mp he]
          exact hnext.le
      waiting := fun hstop n hn hle => by
        dsimp only at hle
        rw [hlength] at hle
        rcases Nat.lt_or_ge s.history.numbered.length n with hlt | hge
        · exact ⟨_, List.mem_append_right _ List.mem_cons_self, by dsimp only; omega⟩
        · obtain ⟨e, he, heq⟩ := hs.waiting hstop n hn hge
          exact ⟨e, List.mem_append_left _ he, heq⟩
      acks := hs.acks
      needs := fun hstop hnot => by
        rw [show needs = true from hneeds hstop] at hnot
        cases hnot }
  unfold SessionController.numberMessage SessionController.markNeedsImmediateDurability
  split_ifs with hstop
  · refine hstored s.needsImmediateDurability fun hnot => ?_
    rw [show s.protocolStopped = true from hstop] at hnot
    cases hnot
  · exact hstored true fun _ => rfl

theorem Stored.consume (hs : Stored h s) (g : G) (msg : Bytes) (hsome : s.cradle.isSome) :
    Stored h (SessionController.owe (s.remoteNumber + 1) { s with
      cradle := some g
      remoteNumber := s.remoteNumber + 1
      history := { s.history with consumed := s.history.consumed ++ [msg] } }) := by
  have hnext := hs.remoteNumber hsome
  have hlength : (s.history.consumed ++ [msg]).length = s.history.consumed.length + 1 := by
    rw [List.length_append, List.length_singleton]
  have hstored (needs : Bool) (hneeds : s.protocolStopped = false → needs = true) : Stored h { s with
      cradle := some g
      remoteNumber := s.remoteNumber + 1
      history := { s.history with consumed := s.history.consumed ++ [msg] }
      pendingAcks := s.pendingAcks ++ [s.remoteNumber + 1]
      needsImmediateDurability := needs } :=
    { covered := hs.covered
      messageNumber := fun _ => hs.messageNumber hsome
      remoteNumber := fun _ => by
        dsimp only
        rw [hnext, hlength]
      blank := fun hnone => by cases hnone
      unacked := hs.unacked
      waiting := hs.waiting
      acks := fun hstop n hn => by
        dsimp only
        rw [hlength]
        rcases List.mem_append.mp hn with hn | hn
        · exact (hs.acks hstop n hn).trans (Nat.le_succ _)
        · rw [List.mem_singleton.mp hn, hnext]
      needs := fun hstop hnot => by
        rw [show needs = true from hneeds hstop] at hnot
        cases hnot }
  unfold SessionController.owe SessionController.markNeedsImmediateDurability
  split_ifs with hstop
  · refine hstored s.needsImmediateDurability fun hnot => ?_
    rw [show s.protocolStopped = true from hstop] at hnot
    cases hnot
  · exact hstored true fun _ => rfl

theorem Stored.emit (hs : Stored h s) {frames : List Bytes}
    (hframes : ∀ frame ∈ frames, ∀ n msg, deliverRawPeerMessage frame = some (.message n msg) →
      n ≤ h.numbered.length) : Stored h { s with sent := s.sent ++ frames } :=
  { hs with
    covered := fun frame hframe => by
      rcases List.mem_append.mp hframe with hframe | hframe
      · exact hs.covered frame hframe
      · exact hframes frame hframe }

/-- Whatever its length, the number in a frame is not above that of the message. -/
theorem le_of_frame {e : Outbound} {n : ℕ} {msg : Bytes}
    (h : deliverRawPeerMessage (buildFrame 1 e.msgno e.msg) = some (.message n msg)) : n ≤ e.msgno := by
  rw [deliver_message] at h
  injection Option.some.inj h with hn _
  rw [← hn]
  exact Nat.mod_le _ _

theorem Move.stored (hmove : Move Γ s s') (hΓ : ∀ n, Γ.leaves n → n ≤ h.numbered.length) (hs : Stored h s) :
    Stored h s' := by
  cases hmove with
  | quiet hquiet => exact hquiet.stored hs
  | number msg hsome => exact hs.number msg hsome
  | consume g msg hsome _ => exact hs.consume g msg hsome
  | acknowledgeAgain n hneeds hn =>
    have hsome : s.cradle.isSome := by
      rw [Option.isSome_iff_ne_none]
      intro hnone
      rw [hs.blank hnone] at hneeds
      cases hneeds
    refine { hs with acks := fun hstop k hk => ?_, needs := fun _ hnot => ?_ }
    · rcases List.mem_append.mp hk with hk | hk
      · exact hs.acks hstop k hk
      · rw [List.mem_singleton.mp hk]
        exact hn.trans (hs.remoteNumber hsome).le
    · rw [show s.needsImmediateDurability = false from hnot] at hneeds
      cases hneeds
  | sendMessage e he hleaves =>
    refine hs.emit fun frame hframe n msg hmessage => ?_
    rw [List.mem_singleton.mp hframe] at hmessage
    exact (le_of_frame hmessage).trans (hΓ _ hleaves)
  | sendAck n _ =>
    refine hs.emit fun frame hframe k msg hmessage => ?_
    rw [List.mem_singleton.mp hframe] at hmessage
    exact absurd hmessage not_message_of_ack
  | prune q n _ _ => exact { hs with unacked := fun _ he => hs.unacked _ (List.mem_filter.mp he).1 }
  | stop =>
    exact
      { hs with
        blank := fun _ => rfl
        unacked := fun _ he => absurd he List.not_mem_nil
        waiting := fun hstop => by cases hstop
        acks := fun hstop => by cases hstop
        needs := fun hstop => by cases hstop }
  | owe n hstopped =>
    have hnot : ¬ s.protocolStopped = false := by
      rw [hstopped]
      decide
    exact { hs with acks := fun hstop => absurd hstop hnot, needs := fun hstop => absurd hstop hnot }
  | _ => exact { hs with }

theorem Moves.stored (hmoves : Moves Γ s s') (hΓ : ∀ n, Γ.leaves n → n ≤ h.numbered.length) (hs : Stored h s) :
    Stored h s' := by
  induction hmoves with
  | refl => exact hs
  | tail _ hmove ih => exact hmove.stored hΓ ih

/-! What a flush relies on. -/

/-- With `h` in the storage, so many of the messages and of the acknowledgements may leave, and all that has
been taken since waits behind them. -/
structure Suffices (outboundCount ackCount : ℕ) (s : SessionController G) (h : History) : Prop where
  outboundWaits : outboundCount ≤ s.pendingOutboundSends.length
  acksWait : ackCount ≤ s.pendingAcks.length
  outbound : ∀ e ∈ s.pendingOutboundSends.take outboundCount, e.msgno ≤ h.numbered.length
  acks : ∀ n ∈ s.pendingAcks.take ackCount, n ≤ h.consumed.length
  debt : ∀ n, h.consumed.length < n → n ≤ s.history.consumed.length → n ∈ s.pendingAcks.drop ackCount

variable {outboundCount ackCount : ℕ}

theorem Suffices.le {h' : History} (hs : Suffices outboundCount ackCount s h) (hle : h.Le h') :
    Suffices outboundCount ackCount s h' :=
  { hs with
    outbound := fun e he => (hs.outbound e he).trans hle.1.length_le
    acks := fun n hn => (hs.acks n hn).trans hle.2.length_le
    debt := fun n hn => hs.debt n (hle.2.length_le.trans_lt hn) }

/-- More waits than did. -/
theorem Suffices.more (hs : Suffices outboundCount ackCount s h)
    (acks : List ℕ) (hpending : s.pendingOutboundSends <+: s'.pendingOutboundSends)
    (hacks : s'.pendingAcks = s.pendingAcks ++ acks)
    (hconsumed : ∀ n, s.history.consumed.length < n → n ≤ s'.history.consumed.length → n ∈ acks) :
    Suffices outboundCount ackCount s' h := by
  obtain ⟨more, hmore⟩ := hpending
  refine ⟨?_, ?_, ?_, ?_, fun n hn hle => ?_⟩
  · rw [← hmore, List.length_append]
    exact hs.outboundWaits.trans (Nat.le_add_right _ _)
  · rw [hacks, List.length_append]
    exact hs.acksWait.trans (Nat.le_add_right _ _)
  · rw [← hmore, List.take_append_of_le_length hs.outboundWaits]
    exact hs.outbound
  · rw [hacks, List.take_append_of_le_length hs.acksWait]
    exact hs.acks
  · rw [hacks, List.drop_append_of_le_length hs.acksWait]
    rcases Nat.lt_or_ge s.history.consumed.length n with hlt | hge
    · exact List.mem_append_right _ (hconsumed n hlt hle)
    · exact List.mem_append_left _ (hs.debt n hn hge)

theorem Suffices.same (hs : Suffices outboundCount ackCount s h)
    (hpending : s'.pendingOutboundSends = s.pendingOutboundSends) (hacks : s'.pendingAcks = s.pendingAcks)
    (hhistory : s'.history.consumed = s.history.consumed) : Suffices outboundCount ackCount s' h := by
  refine hs.more [] (hpending ▸ List.prefix_rfl) (by rw [hacks, List.append_nil]) fun n hlt hle => ?_
  rw [hhistory] at hle
  omega

theorem Move.suffices (hmove : Move Γ s s') (hremote : s.cradle.isSome → s.remoteNumber = s.history.consumed.length)
    (hs : Suffices outboundCount ackCount s h) :
    s'.protocolStopped = true ∨ Suffices outboundCount ackCount s' h := by
  cases hmove with
  | quiet hquiet =>
    exact .inr (hs.same hquiet.pendingOutboundSends hquiet.pendingAcks (by rw [hquiet.history]))
  | number msg _ =>
    refine .inr (hs.more [] ?_ ?_ fun n hlt hle => ?_)
    · unfold SessionController.numberMessage SessionController.markNeedsImmediateDurability
      split_ifs <;> exact List.prefix_append ..
    · rw [List.append_nil]
      unfold SessionController.numberMessage SessionController.markNeedsImmediateDurability
      split_ifs <;> rfl
    · have hconsumed : (s.numberMessage msg).history.consumed = s.history.consumed := by
        unfold SessionController.numberMessage SessionController.markNeedsImmediateDurability
        split_ifs <;> rfl
      rw [hconsumed] at hle
      omega
  | consume g msg hsome _ =>
    refine .inr (hs.more [s.remoteNumber + 1] ?_ ?_ fun n hlt hle => ?_)
    · unfold SessionController.owe SessionController.markNeedsImmediateDurability
      split_ifs <;> exact List.prefix_rfl
    · unfold SessionController.owe SessionController.markNeedsImmediateDurability
      split_ifs <;> rfl
    · rw [SessionController.owe_history, List.length_append, List.length_singleton] at hle
      rw [List.mem_singleton, hremote hsome]
      omega
  | acknowledgeAgain n _ _ =>
    refine .inr (hs.more [n] List.prefix_rfl rfl fun k hlt hle => ?_)
    exact absurd (lt_of_lt_of_le hlt hle) (lt_irrefl _)
  | stop => exact .inl rfl
  | owe n hstop => exact .inl hstop
  | _ => exact .inr (hs.same rfl rfl rfl)

theorem Moves.suffices {h₀ : History} (hmoves : Moves Γ s s') (hΓ : ∀ n, Γ.leaves n → n ≤ h₀.numbered.length)
    (hstored : Stored h₀ s) (hs : Suffices outboundCount ackCount s h) :
    s'.protocolStopped = true ∨ Suffices outboundCount ackCount s' h := by
  induction hmoves with
  | refl => exact .inr hs
  | tail hbefore hmove ih =>
    rcases ih with hstop | hsuffices
    · exact .inl (hmove.stopped hstop)
    · exact hmove.suffices (Moves.stored hbefore hΓ hstored).remoteNumber hsuffices

theorem Stored.le {h' : History} (hs : Stored h s) (hle : h.Le h') : Stored h' s :=
  { hs with
    covered := fun frame hframe n msg hmessage => (hs.covered frame hframe n msg hmessage).trans hle.1.length_le
    waiting := fun hstop n hn => hs.waiting hstop n (hle.1.length_le.trans_lt hn)
    needs := fun hstop hnot => by
      obtain ⟨hpending, hacks, hconsumed⟩ := hs.needs hstop hnot
      exact ⟨hpending, hacks, hconsumed.trans hle.2.length_le⟩ }

/-- Once `h` is stored, the flush that relied on it lets go of what it may. -/
theorem SessionController.Flushed.stored (hflushed : SessionController.Flushed outboundCount ackCount s s')
    (hs : Stored h s) (hstop : s.protocolStopped = false) (hsuffices : Suffices outboundCount ackCount s h) :
    Stored h s' := by
  obtain ⟨outbound, acks, needs, frames, handoff, rfl, rfl, houtbound, hacks, hframes⟩ := hflushed
  have hemit : Stored h { s with sent := s.sent ++ frames } := hs.emit fun frame hframe n msg hmessage => by
    rcases hframes frame hframe with ⟨e, he, rfl⟩ | ⟨k, -, rfl⟩
    · exact (le_of_frame hmessage).trans (hsuffices.outbound e he)
    · exact absurd hmessage not_message_of_ack
  have hnone {l : List Outbound} {l' : List ℕ} (hempty : (!l.isEmpty || !l'.isEmpty) = false) : l = [] ∧ l' = [] := by
    rw [Bool.or_eq_false_iff, Bool.not_eq_false', Bool.not_eq_false', List.isEmpty_iff, List.isEmpty_iff] at hempty
    exact hempty
  refine
    { hemit with
      blank := fun hcradle => ?_
      waiting := fun _ n hn hle => ?_
      acks := fun _ n hn => ?_
      needs := fun _ hnot => ?_ }
  · obtain ⟨hpending, hack, -⟩ := hs.needs hstop (hs.blank hcradle)
    rw [hpending, List.take_nil] at houtbound
    rw [hack, List.take_nil] at hacks
    rw [List.subset_nil.mp houtbound, List.subset_nil.mp hacks, hpending, hack, List.drop_nil, List.drop_nil]
    rfl
  · obtain ⟨e, he, rfl⟩ := hs.waiting hstop n hn hle
    rw [← List.take_append_drop outboundCount s.pendingOutboundSends] at he
    rcases List.mem_append.mp he with he | he
    · exact absurd (hsuffices.outbound e he) (Nat.not_le_of_lt hn)
    · exact ⟨e, List.mem_append_right _ he, rfl⟩
  · rcases List.mem_append.mp hn with hn | hn
    · exact hs.acks hstop n (List.mem_of_mem_take (hacks hn))
    · exact hs.acks hstop n (List.mem_of_mem_drop hn)
  · obtain ⟨hpending, hack⟩ := hnone hnot
    refine ⟨hpending, hack, ?_⟩
    by_contra hlt
    have hmem := hsuffices.debt s.history.consumed.length (Nat.lt_of_not_le hlt) le_rfl
    rw [(List.append_eq_nil_iff.mp hack).2] at hmem
    cases hmem

/-- All that may leave may be asked for. -/
theorem Stored.ready {frame : PeerFrame} (hs : Stored h s) (hremote : s.remoteNumber ≤ s.history.consumed.length)
    (hacknowledges : ∀ n, n ≤ h.consumed.length ∨ s.protocolStopped = true ∨ s.onChain = true → Γ.acknowledges n)
    (hresend : s.CallsFor frame → s.Retransmits host → ∀ e ∈ s.unackedMessages, Γ.leaves e.msgno) :
    SessionController.Ready Γ host s frame where
  resend := hresend
  duplicate hneeds n hn := by
    cases hstop : s.protocolStopped with
    | true => exact hacknowledges n (.inr (.inl hstop))
    | false =>
      obtain ⟨-, -, hconsumed⟩ := hs.needs hstop hneeds
      exact hacknowledges n (.inl (hn.trans (hremote.trans hconsumed)))
  ended hended n := hacknowledges n (.inr hended)

/-- A session that is put in place and numbers nothing asks for nothing that is not stored. -/
theorem Stored.setGameSession [ChiaGame G A] {g : G} {observations : List A} (hheld : Held Γ s)
    (hs : Stored h { s with cradle := some g }) (hleaves : ∀ n, Γ.leaves n ↔ n ≤ h.numbered.length)
    (hnumbered : (s.setGameSession host g observations).history.numbered.length ≤ h.numbered.length)
    (hacknowledges : ∀ n, n ≤ h.consumed.length ∨ (s.setGameSession host g observations).protocolStopped = true ∨
      (s.setGameSession host g observations).onChain = true → Γ.acknowledges n) :
    Moves Γ { s with cradle := some g } (s.setGameSession host g observations) := by
  refine SessionController.setGameSession_moves hheld g observations fun m hmoves hleads frame => ?_
  have hm := Moves.stored hmoves (fun n hn => (hleaves n).mp hn) hs
  have hsome : m.cradle.isSome := by rw [Moves.cradle hmoves, Option.isSome_some]
  refine hm.ready (hm.remoteNumber hsome).le (fun n hn => hacknowledges n ?_) fun _ _ e he => (hleaves _).mpr ?_
  · rcases hn with hn | hstop | hchain
    · exact .inl hn
    · exact .inr (.inl (Moves.stopped hleads.moves hstop))
    · exact .inr (.inr (hleads.onChain hchain))
  · exact (hm.unacked e he).trans ((Moves.history hleads.moves).1.length_le.trans hnumbered)

end Move

end Peer

end ChiaGaming
