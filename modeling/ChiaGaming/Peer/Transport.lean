import ChiaGaming.Peer.Durable

namespace ChiaGaming

namespace Peer

open Relation (ReflTransGen)

variable {G A : Type} {Γ : Traffic} {host : Host}

/-! The storage follows the controller, and what leaves follows the storage. -/

namespace Party

/-- The histories of what is still to be written, and of the controller itself. -/
def timeline (p : Party G) : List History :=
  p.writes.map (fun w => w.1.history) ++ (p.cached.map SessionSave.history).toList ++ [p.ctl.history]

/-- What a flush relies on: the cache, then the copy of it that it waits for, then the storage. -/
def CountsOn (p : Party G) (P : History → Prop) : FlushPhase → Prop
  | .saving => ∃ c, p.cached = some c ∧ P c.history
  | .writing => ∀ w ∈ p.writes, w.2 = true → P w.1.history
  | .saved => P p.storedHistory

def awaited (p : Party G) : ℕ :=
  match p.flush with
  | some ⟨_, _, .writing⟩ => 1
  | _ => 0

structure Durable (p : Party G) : Prop where
  stored : Stored p.storedHistory p.ctl
  timeline : (p.storedHistory :: p.timeline).Pairwise History.Le
  marks : p.writes.countP Prod.snd = p.awaited
  flush : p.ctl.protocolStopped = false → ∀ f, p.flush = some f →
    p.CountsOn (Suffices f.outboundCount f.ackCount p.ctl) f.phase

variable {p p' : Party G}

theorem Durable.stored_le (hp : p.Durable) : p.storedHistory.Le p.ctl.history :=
  List.rel_of_pairwise_cons hp.timeline (List.mem_append_right _ List.mem_cons_self)

theorem Durable.cached_le (hp : p.Durable) {c : SessionSave G} (hc : p.cached = some c) :
    p.storedHistory.Le c.history ∧ c.history.Le p.ctl.history := by
  have hmem : c.history ∈ p.writes.map (fun w => w.1.history) ++ (p.cached.map SessionSave.history).toList := by
    rw [hc]
    exact List.mem_append_right _ List.mem_cons_self
  obtain ⟨hfirst, hrest⟩ := List.pairwise_cons.mp hp.timeline
  exact ⟨hfirst _ (List.mem_append_left _ hmem), (List.pairwise_append.mp hrest).2.2 _ hmem _ List.mem_cons_self⟩

theorem Durable.covered (hp : p.Durable) : p.Covered := hp.stored.covered

theorem CountsOn.imp {P Q : History → Prop} {phase : FlushPhase} (h : p.CountsOn P phase) (hPQ : ∀ h, P h → Q h) :
    p.CountsOn Q phase := by
  cases phase with
  | saving =>
    obtain ⟨c, hc, hP⟩ := h
    exact ⟨c, hc, hPQ _ hP⟩
  | writing => exact fun w hw hmark => hPQ _ (h w hw hmark)
  | saved => exact hPQ _ h

theorem Durable.initial : (Party.initial : Party G).Durable where
  stored :=
    { covered := fun _ hframe => absurd hframe List.not_mem_nil
      messageNumber := fun h => by cases h
      remoteNumber := fun h => by cases h
      blank := fun _ => rfl
      unacked := fun _ he => absurd he List.not_mem_nil
      waiting := fun _ n hn hle => absurd (hn.trans_le hle) (lt_irrefl _)
      acks := fun _ _ hn => absurd hn List.not_mem_nil
      needs := fun _ _ => ⟨rfl, rfl, le_rfl⟩ }
  timeline := List.pairwise_pair.mpr (.refl _)
  marks := rfl
  flush _ f h := by cases h

/-- The controller has moved on, and the storage has not. -/
theorem Durable.moves {s : SessionController G} (hp : p.Durable) (h : Moves Γ p.ctl s)
    (hΓ : ∀ n, Γ.leaves n → n ≤ p.storedHistory.numbered.length) : { p with ctl := s }.Durable where
  stored := Moves.stored h hΓ hp.stored
  timeline := by
    have hle := Moves.history h
    obtain ⟨hfirst, hrest⟩ := List.pairwise_cons.mp hp.timeline
    obtain ⟨hsaves, -, hlast⟩ := List.pairwise_append.mp hrest
    refine List.pairwise_cons.mpr ⟨fun h' hh' => ?_, List.pairwise_append.mpr ⟨hsaves, List.pairwise_singleton _ _,
      fun h' hh' h'' hh'' => ?_⟩⟩
    · rcases List.mem_append.mp hh' with hh' | hh'
      · exact hfirst h' (List.mem_append_left _ hh')
      · rw [List.mem_singleton.mp hh']
        exact hp.stored_le.trans hle
    · rw [List.mem_singleton.mp hh'']
      exact (hlast h' hh' _ List.mem_cons_self).trans hle
  marks := hp.marks
  flush hstop f hf := by
    refine CountsOn.imp (hp.flush (Moves.running h hstop) f hf) fun h' hsuffices => ?_
    rcases Moves.suffices h hΓ hp.stored hsuffices with hstopped | hsuffices
    · rw [show s.protocolStopped = false from hstop] at hstopped
      cases hstopped
    · exact hsuffices

theorem pairwise_twice {l l' : List History} {h : History} (hl : (l ++ h :: l').Pairwise History.Le) :
    (l ++ h :: h :: l').Pairwise History.Le := by
  obtain ⟨hleft, hright, hacross⟩ := List.pairwise_append.mp hl
  refine List.pairwise_append.mpr ⟨hleft, List.pairwise_cons.mpr ⟨fun h' hh' => ?_, hright⟩, fun a ha b hb => ?_⟩
  · rcases List.mem_cons.mp hh' with rfl | hh'
    · exact .refl _
    · exact List.rel_of_pairwise_cons hright hh'
  · rcases List.mem_cons.mp hb with rfl | hb
    · exact hacross a ha _ List.mem_cons_self
    · exact hacross a ha b hb

/-- The snapshot is the latest of all. -/
theorem Durable.save (hp : p.Durable) : p.save.Durable := by
  unfold Party.save
  cases hsnapshot : p.ctl.snapshot with
  | none => exact hp
  | some c =>
    obtain ⟨g, hcradle, rfl⟩ := Option.map_eq_some_iff.mp hsnapshot
    refine ⟨hp.stored, ?_, hp.marks, fun hstop f hf => ?_⟩
    · have hsublist : ((p.storedHistory :: p.writes.map (fun w => w.1.history)) ++ [p.ctl.history]).Sublist
          (p.storedHistory :: p.timeline) :=
        ((List.sublist_append_left ..).append_right _).cons_cons _
      have htwice := pairwise_twice (hp.timeline.sublist hsublist)
      rwa [List.append_cons, List.cons_append, List.cons_append] at htwice
    · have hflush := hp.flush hstop f hf
      cases hphase : f.phase with
      | saving =>
        rw [hphase] at hflush
        obtain ⟨c, hc, hsuffices⟩ := hflush
        exact ⟨_, rfl, hsuffices.le (hp.cached_le hc).2⟩
      | writing =>
        rw [hphase] at hflush
        exact hflush
      | saved =>
        rw [hphase] at hflush
        exact hflush

theorem queueWrite_eq (p : Party G) (awaited : Bool) : p.queueWrite awaited = p ∨
    (∃ c k a, p.cached = some c ∧ p.flush = some ⟨k, a, .saving⟩ ∧
      p.queueWrite awaited = { p with writes := p.writes ++ [(c, true)], flush := some ⟨k, a, .writing⟩ }) ∨
    ∃ c, p.cached = some c ∧ p.queueWrite awaited = { p with writes := p.writes ++ [(c, false)] } := by
  unfold Party.queueWrite
  split
  · next c k a hc hf => exact .inr (.inl ⟨c, k, a, hc, hf, rfl⟩)
  · next c hc => exact .inr (.inr ⟨c, hc, rfl⟩)
  · exact .inl rfl

theorem Durable.timeline_queued (hp : p.Durable) {c : SessionSave G} (hc : p.cached = some c) (awaited : Bool)
    (flush : Option Flush) :
    (p.storedHistory :: { p with writes := p.writes ++ [(c, awaited)], flush }.timeline).Pairwise History.Le := by
  have htimeline := hp.timeline
  unfold Party.timeline at htimeline ⊢
  rw [hc] at htimeline ⊢
  rw [List.append_assoc, ← List.cons_append] at htimeline
  rw [List.map_append, List.append_assoc, List.append_assoc, ← List.cons_append]
  exact pairwise_twice htimeline

theorem Durable.unmarked (hp : p.Durable) (hawaited : p.awaited = 0) {w : SessionSave G × Bool} (hw : w ∈ p.writes) :
    w.2 = false := by
  have hmarks := hp.marks
  rw [hawaited, List.countP_eq_zero] at hmarks
  exact Bool.not_eq_true _ ▸ hmarks w hw

theorem Durable.queueWrite (hp : p.Durable) (awaited : Bool) : (p.queueWrite awaited).Durable := by
  rcases queueWrite_eq p awaited with h | ⟨c, k, a, hc, hf, h⟩ | ⟨c, hc, h⟩
  · rw [h]
    exact hp
  · rw [h]
    have hawaited : p.awaited = 0 := by rw [Party.awaited, hf]
    refine ⟨hp.stored, hp.timeline_queued hc true _, ?_, fun hstop f hf' => ?_⟩
    · rw [List.countP_append, hp.marks, hawaited]
      rfl
    · obtain ⟨c', hc', hsuffices⟩ := hp.flush hstop _ hf
      obtain rfl := Option.some.inj (hc.symm.trans hc')
      obtain rfl := Option.some.inj hf'
      intro w hw hmark
      rcases List.mem_append.mp hw with hw | hw
      · rw [hp.unmarked hawaited hw] at hmark
        cases hmark
      · rw [List.mem_singleton.mp hw]
        exact hsuffices
  · rw [h]
    refine ⟨hp.stored, hp.timeline_queued hc false _, ?_, fun hstop f hf => ?_⟩
    · rw [List.countP_append, hp.marks]
      rfl
    · have hflush := hp.flush hstop f hf
      cases hphase : f.phase with
      | saving =>
        rw [hphase] at hflush
        exact hflush
      | writing =>
        rw [hphase] at hflush
        intro w hw hmark
        rcases List.mem_append.mp hw with hw | hw
        · exact hflush w hw hmark
        · rw [List.mem_singleton.mp hw] at hmark
          cases hmark
      | saved =>
        rw [hphase] at hflush
        exact hflush

/-- The flush that waits for the first of the writes. -/
theorem Durable.waits (hp : p.Durable) {c : SessionSave G} {rest : List (SessionSave G × Bool)}
    (hwrites : p.writes = (c, true) :: rest) :
    (∃ k a, p.flush = some ⟨k, a, .writing⟩) ∧ rest.countP Prod.snd = 0 := by
  have hmarks := hp.marks
  rw [hwrites, List.countP_cons_of_pos rfl] at hmarks
  unfold Party.awaited at hmarks
  split at hmarks
  · next k a hf => exact ⟨⟨k, a, hf⟩, Nat.succ.inj hmarks⟩
  · cases hmarks

theorem Durable.timeline_written (hp : p.Durable) {w : SessionSave G × Bool} {rest : List (SessionSave G × Bool)}
    (hwrites : p.writes = w :: rest) (flush : Option Flush) :
    p.storedHistory.Le w.1.history ∧
      (w.1.history :: { p with writes := rest, flush }.timeline).Pairwise History.Le := by
  have htimeline := hp.timeline
  unfold Party.timeline at htimeline ⊢
  rw [hwrites] at htimeline
  exact ⟨List.rel_of_pairwise_cons htimeline List.mem_cons_self, (List.pairwise_cons.mp htimeline).2⟩

theorem Durable.write (hp : p.Durable) : p.write.Durable := by
  unfold Party.write
  cases hwrites : p.writes with
  | nil => exact hp
  | cons w rest =>
    obtain ⟨c, awaited⟩ := w
    dsimp only
    obtain ⟨hle, htimeline⟩ := hp.timeline_written hwrites p.flush
    cases awaited with
    | true =>
      obtain ⟨⟨k, a, hf⟩, hrest⟩ := hp.waits hwrites
      refine ⟨hp.stored.le hle, htimeline, ?_, fun hstop f hf' => ?_⟩
      · rw [hf]
        exact hrest
      · have hflush := hp.flush hstop _ hf (c, true) (hwrites ▸ List.mem_cons_self) rfl
        rw [hf] at hf'
        obtain rfl := Option.some.inj hf'
        exact hflush
    | false =>
      refine ⟨hp.stored.le hle, htimeline, ?_, fun hstop f hf => ?_⟩
      · have hmarks := hp.marks
        rw [hwrites, List.countP_cons_of_neg Bool.false_ne_true] at hmarks
        exact hmarks
      · have hflush := hp.flush hstop f hf
        cases hphase : f.phase with
        | saving =>
          rw [hphase] at hflush
          exact hflush
        | writing =>
          rw [hphase] at hflush
          exact fun w hw => hflush w (hwrites ▸ List.mem_cons_of_mem _ hw)
        | saved =>
          rw [hphase] at hflush
          exact hflush.le hle

theorem Durable.failWrite (hp : p.Durable) : p.failWrite.Durable := by
  unfold Party.failWrite
  cases hwrites : p.writes with
  | nil => exact hp
  | cons w rest =>
    obtain ⟨c, awaited⟩ := w
    dsimp only
    obtain ⟨hle, htimeline⟩ := hp.timeline_written hwrites p.flush
    have htimeline' : (p.storedHistory :: { p with writes := rest, flush := p.flush }.timeline).Pairwise History.Le := by
      obtain ⟨hfirst, hrest⟩ := List.pairwise_cons.mp htimeline
      exact List.pairwise_cons.mpr ⟨fun h hh => hle.trans (hfirst h hh), hrest⟩
    cases awaited with
    | true => exact ⟨hp.stored, htimeline', (hp.waits hwrites).2, fun _ f hf => by cases hf⟩
    | false =>
      refine ⟨hp.stored, htimeline', ?_, fun hstop f hf => ?_⟩
      · have hmarks := hp.marks
        rw [hwrites, List.countP_cons_of_neg Bool.false_ne_true] at hmarks
        exact hmarks
      · have hflush := hp.flush hstop f hf
        cases hphase : f.phase with
        | saving =>
          rw [hphase] at hflush
          exact hflush
        | writing =>
          rw [hphase] at hflush
          exact fun w hw => hflush w (hwrites ▸ List.mem_cons_of_mem _ hw)
        | saved =>
          rw [hphase] at hflush
          exact hflush

/-- A flush has gone through: nothing counts on it any more. -/
theorem Durable.flushed {s : SessionController G} {outboundCount ackCount : ℕ} (hp : p.Durable)
    (hflushed : SessionController.Flushed outboundCount ackCount p.ctl s) (hstop : p.ctl.protocolStopped = false)
    (hsuffices : Suffices outboundCount ackCount p.ctl p.storedHistory) (hawaited : p.awaited = 0) :
    { p with ctl := s, flush := none }.Durable where
  stored := hflushed.stored hp.stored hstop hsuffices
  timeline := by
    obtain ⟨outbound, acks, needs, frames, handoff, rfl, -⟩ := hflushed
    exact hp.timeline
  marks := hp.marks.trans hawaited
  flush _ f hf := by cases hf

theorem Durable.beginFlush (hp : p.Durable)
    (hpending : ∀ e ∈ p.ctl.pendingOutboundSends, e.msgno ≤ p.ctl.history.numbered.length) :
    (p.beginFlush host).Durable := by
  unfold Party.beginFlush
  by_cases hbusy : p.ctl.protocolStopped || p.flush.isSome
  · rw [if_pos hbusy]
    exact hp
  rw [if_neg hbusy]
  obtain ⟨hstop, hidle⟩ := Bool.or_eq_false_iff.mp (Bool.not_eq_true _ ▸ hbusy)
  have hnone : p.flush = none := Option.isSome_eq_false_iff.mp hidle |> Option.isNone_iff_eq_none.mp
  have hawaited : p.awaited = 0 := by rw [Party.awaited, hnone]
  by_cases hneeds : p.ctl.needsImmediateDurability
  · rw [if_pos hneeds]
    have hsave := hp.save
    cases hcradle : p.ctl.cradle with
    | none =>
      rw [hp.stored.blank hcradle] at hneeds
      cases hneeds
    | some g =>
      have hsnapshot : p.ctl.snapshot = some ⟨g, p.ctl.messageNumber, p.ctl.remoteNumber, p.ctl.unackedMessages,
          p.ctl.history⟩ := by rw [SessionController.snapshot, hcradle, Option.map_some]
      unfold Party.save at hsave ⊢
      rw [hsnapshot] at hsave ⊢
      refine ⟨hsave.stored, hsave.timeline, hsave.marks.trans hawaited, fun _ f hf => ?_⟩
      obtain rfl := Option.some.inj hf
      refine ⟨_, rfl, ⟨le_rfl, le_rfl, fun e he => hpending e (List.mem_of_mem_take he), fun n hn => ?_, fun n hlt hle => ?_⟩⟩
      · exact hp.stored.acks hstop n (List.mem_of_mem_take hn)
      · exact absurd (lt_of_lt_of_le hlt hle) (lt_irrefl _)
  · rw [if_neg hneeds]
    obtain ⟨houtbound, hacks, hconsumed⟩ := hp.stored.needs hstop (Bool.not_eq_true _ ▸ hneeds)
    have hsuffices : Suffices p.ctl.pendingOutboundSends.length p.ctl.pendingAcks.length p.ctl p.storedHistory := by
      refine ⟨le_rfl, le_rfl, fun e he => ?_, fun n hn => ?_, fun n hlt hle => ?_⟩
      · rw [houtbound] at he
        exact absurd he List.not_mem_nil
      · rw [hacks] at hn
        exact absurd hn List.not_mem_nil
      · exact absurd (hlt.trans_le (hle.trans hconsumed)) (lt_irrefl _)
    have hsent : SessionController.Flushed _ _ p.ctl (p.ctl.sendPending host _ _) :=
      SessionController.sendPending_flushed p.ctl.pendingOutboundSends.length p.ctl.pendingAcks.length p.ctl
    have hflushed := hp.flushed hsent hstop hsuffices hawaited
    rwa [← hnone] at hflushed

theorem Durable.finishFlush (hp : p.Durable) : (p.finishFlush host).Durable := by
  unfold Party.finishFlush
  split
  · next k a hf =>
    have hawaited : p.awaited = 0 := by rw [Party.awaited, hf]
    split_ifs with hstop
    · exact ⟨hp.stored, hp.timeline, hp.marks.trans hawaited, fun _ f hf => by cases hf⟩
    · have hrunning := Bool.not_eq_true _ ▸ hstop
      exact hp.flushed (SessionController.sendPending_flushed k a p.ctl) hrunning (hp.flush hrunning _ hf) hawaited
  · exact hp

section Reload

variable [ChiaGame G A]

/-- With nothing in memory but what the storage has. -/
theorem stored_of_history {s : SessionController G} {h : History}
    (hcovered : ∀ frame ∈ s.sent, ∀ n msg, deliverRawPeerMessage frame = some (.message n msg) →
      n ≤ h.numbered.length)
    (hmessage : s.cradle.isSome → s.messageNumber = h.numbered.length + 1)
    (hremote : s.cradle.isSome → s.remoteNumber = h.consumed.length)
    (hblank : s.cradle = none → s.needsImmediateDurability = false)
    (hunacked : ∀ e ∈ s.unackedMessages, e.msgno ≤ h.numbered.length)
    (hacks : s.protocolStopped = false → s.pendingOutboundSends = [] ∧ s.pendingAcks = [])
    (hhistory : s.history = h) : Stored h s where
  covered := hcovered
  messageNumber := hhistory ▸ hmessage
  remoteNumber := hhistory ▸ hremote
  blank := hblank
  unacked := hhistory ▸ hunacked
  waiting _ n hn hle := by
    rw [hhistory] at hle
    exact absurd (hn.trans_le hle) (lt_irrefl _)
  acks hstop n hn := by
    rw [(hacks hstop).2] at hn
    exact absurd hn List.not_mem_nil
  needs hstop _ := ⟨(hacks hstop).1, (hacks hstop).2, by rw [hhistory]⟩

theorem Durable.reload (hp : p.Durable) : (p.reload host).Durable := by
  unfold Party.reload
  rw [new_kickSystem]
  refine ⟨stored_of_history hp.covered (fun h => by cases h) (fun h => by cases h) (fun _ => rfl)
    (fun e he => absurd he List.not_mem_nil) (fun _ => ⟨rfl, rfl⟩) rfl, ?_, rfl, fun _ f hf => by cases hf⟩
  change (p.storedHistory :: ([] ++ (p.disk.map SessionSave.history).toList ++ [p.storedHistory])).Pairwise History.Le
  unfold storedHistory
  cases p.disk with
  | none => exact List.pairwise_pair.mpr (.refl _)
  | some c =>
    refine List.pairwise_cons.mpr ⟨fun h hh => ?_, List.pairwise_pair.mpr (.refl _)⟩
    rcases List.mem_pair.mp hh with rfl | rfl <;> exact .refl _

/-- A session in place of none, with the counters of the storage. -/
theorem Durable.started (hp : p.Durable) {s s' : SessionController G}
    (hrunning : s.protocolStopped = false → p.ctl.protocolStopped = false)
    (hpending : s.pendingOutboundSends = p.ctl.pendingOutboundSends) (hacks : s.pendingAcks = p.ctl.pendingAcks)
    (hhistory : p.ctl.history = p.storedHistory) (hctl : Stored p.storedHistory s)
    (hs : s.history = p.storedHistory) (h : Moves (Traffic.upTo p.storedHistory) s s') :
    { p with ctl := s' }.Durable := by
  have hstarted : { p with ctl := s }.Durable := by
    refine ⟨hctl, ?_, hp.marks, fun hstop f hf => ?_⟩
    · have htimeline := hp.timeline
      unfold Party.timeline at htimeline ⊢
      rw [hhistory] at htimeline
      dsimp only
      rw [hs]
      exact htimeline
    · refine CountsOn.imp (hp.flush (hrunning hstop) f hf) fun h' hsuffices => hsuffices.same hpending hacks ?_
      rw [hs, hhistory]
  exact hstarted.moves h fun n hn => hn

theorem idle_of_none (hp : p.Durable) (hnone : p.ctl.cradle = none) (hstop : p.ctl.protocolStopped = false) :
    p.ctl.pendingOutboundSends = [] ∧ p.ctl.pendingAcks = [] := by
  obtain ⟨houtbound, hacks, -⟩ := hp.stored.needs hstop (hp.stored.blank hnone)
  exact ⟨houtbound, hacks⟩

/-- The save of the storage, loaded into a page that has just been opened. -/
theorem stored_loaded (hp : p.Durable) (hs : p.Sound Γ) (hnone : p.ctl.cradle = none) {s : SessionController G}
    {c : SessionSave G} (hquiet : Quiet p.ctl s) (hdisk : p.disk = some c) :
    Stored p.storedHistory { s.load c with cradle := some c.cradle } := by
  have hsave := hs.saves c (mem_saves.mpr (.inl hdisk))
  have hstored : p.storedHistory = c.history := by
    rw [storedHistory, hdisk]
    rfl
  refine stored_of_history (fun frame hframe => ?_) (fun _ => ?_) (fun _ => ?_) (fun h => by cases h) (fun e he => ?_)
    (fun hstop => ?_) hstored.symm
  · exact hp.covered frame (hquiet.sent ▸ hframe)
  · rw [hstored]
    exact hsave.messageNumber
  · rw [hstored]
    exact hsave.remoteNumber
  · rw [hstored]
    exact (hsave.unacked e he).le_length
  · have hidle := idle_of_none hp hnone (hquiet.protocolStopped ▸ hstop)
    exact ⟨hquiet.pendingOutboundSends.trans hidle.1, hquiet.pendingAcks.trans hidle.2⟩

theorem stored_installed (hp : p.Durable) (hs : p.Sound Γ) (hnone : p.ctl.cradle = none) {s : SessionController G}
    (hquiet : Quiet p.ctl s) (hdisk : p.disk = none) (g : G) :
    Stored p.storedHistory { s with cradle := some g } := by
  have hblank := hs.ctl.blank hnone
  have hhistory := (hs.fresh hnone).history
  have hstored : p.storedHistory = ⟨[], []⟩ := by
    rw [storedHistory, hdisk]
    rfl
  refine stored_of_history (fun frame hframe => ?_) (fun _ => ?_) (fun _ => ?_) (fun h => by cases h) (fun e he => ?_)
    (fun hstop => ?_) (hquiet.history.trans hhistory)
  · exact hp.covered frame (hquiet.sent ▸ hframe)
  · rw [hstored]
    exact hquiet.messageNumber.trans hblank.1
  · rw [hstored]
    exact hquiet.remoteNumber.trans hblank.2
  · rw [← hhistory]
    exact hp.stored.unacked e (hquiet.unackedMessages ▸ he)
  · have hidle := idle_of_none hp hnone (hquiet.protocolStopped ▸ hstop)
    exact ⟨hquiet.pendingOutboundSends.trans hidle.1, hquiet.pendingAcks.trans hidle.2⟩

end Reload

/-! The pages that are careful. -/

section Careful

variable [ChiaGame G A]

/-- Nothing leaves again while a message waits to be stored, and a session that is put in place numbers nothing. -/
def Careful (p : Party G) (host : Host) : Input G A → Prop
  | .receive payload => ∀ frame, deliverRawPeerMessage payload = some frame → p.ctl.CallsFor frame →
      p.ctl.Retransmits host → p.ctl.pendingOutboundSends = []
  | .reconnect => p.ctl.Retransmits host → p.ctl.pendingOutboundSends = []
  | .restore observations => (p.restore host observations).ctl.history.numbered = p.ctl.history.numbered
  | .newSession cradle => (p.newSession host cradle).ctl.history.numbered = p.ctl.history.numbered
  | _ => True

def Live (p : Party G) : Prop := p.ctl.protocolStopped = false ∧ p.ctl.onChain = false

/-- The messages that are stored may leave, and so may the acknowledgements of those that are, or that an ended
session is sent. -/
structure Allows (Γ : Traffic) (p : Party G) (host : Host) (input : Input G A) : Prop where
  leaves : ∀ n, Γ.leaves n ↔ n ≤ p.storedHistory.numbered.length
  acknowledges : ∀ n, n ≤ p.storedHistory.consumed.length ∨ ¬ p.Live ∨ ¬ (p.next host input).Live → Γ.acknowledges n

theorem not_live_of_ended (h : p.ctl.protocolStopped = true ∨ p.ctl.onChain = true) : ¬ p.Live := by
  rintro ⟨hstop, hchain⟩
  rcases h with h | h
  · rw [hstop] at h
    cases h
  · rw [hchain] at h
    cases h

variable {input : Input G A} {Γ₀ : Traffic}

theorem remoteNumber_le (hs : p.Sound Γ₀) : p.ctl.remoteNumber ≤ p.ctl.history.consumed.length := by
  cases hcradle : p.ctl.cradle with
  | none =>
    rw [(hs.ctl.blank hcradle).2]
    exact Nat.zero_le _
  | some g => exact (hs.ctl.remoteNumber (by rw [hcradle]; rfl)).le

theorem Durable.retransmits (hp : p.Durable) (hΓ : Allows Γ p host input) (hresend : p.ctl.Retransmits host)
    (hempty : p.ctl.pendingOutboundSends = []) : ∀ e ∈ p.ctl.unackedMessages, Γ.leaves e.msgno :=
  fun e he => (hΓ.leaves _).mpr (hp.stored.leaves hresend.1 hempty e he)

theorem Durable.receive_moves (hp : p.Durable) (hs : p.Sound Γ₀) {payload : Bytes}
    (hΓ : Allows Γ p host (.receive payload : Input G A)) (hheld : Held Γ p.ctl)
    (hadmits : ∀ frame, deliverRawPeerMessage payload = some frame → Γ.admits frame)
    (hcareful : p.Careful host (.receive payload : Input G A)) :
    Moves Γ p.ctl (p.ctl.receive host payload) := by
  refine SessionController.receive_moves hheld hadmits fun frame hframe =>
    hp.stored.ready (remoteNumber_le hs) (fun n hn => hΓ.acknowledges n ?_) fun hcalls hresend =>
      hp.retransmits hΓ hresend (hcareful frame hframe hcalls hresend)
  rcases hn with hn | hended
  · exact .inl hn
  · exact .inr (.inl (not_live_of_ended hended))

theorem restore_cases (p : Party G) (host : Host) (observations : List A) : p.restore host observations = p ∨
    ∃ c, p.ctl.cradle = none ∧ p.disk = some c ∧ p.restore host observations =
      { p with ctl := ((p.ctl.kickSystem host 1).load c).setGameSession host c.cradle observations } := by
  unfold Party.restore
  split
  · next c hnone hdisk => exact .inr ⟨c, hnone, hdisk, rfl⟩
  · exact .inl rfl

theorem newSession_cases (p : Party G) (host : Host) (g : G) : p.newSession host g = p ∨
    p.ctl.cradle = none ∧ p.disk = none ∧ p.newSession host g =
      { p with ctl := (p.ctl.kickSystem host 1).setGameSession host g ([] : List A) } := by
  unfold Party.newSession
  split
  · next hnone hdisk => exact .inr ⟨hnone, hdisk, rfl⟩
  · exact .inl rfl

/-- The session of the storage starts from its numbers. -/
theorem Durable.restore_moves (hp : p.Durable) (hs : p.Sound Γ₀) {observations : List A} {c : SessionSave G}
    (hΓ : Allows Γ p host (.restore observations : Input G A)) (hheld : Held Γ p.ctl)
    (hcareful : p.Careful host (.restore observations : Input G A)) (hnone : p.ctl.cradle = none)
    (hdisk : p.disk = some c) (hrestore : p.restore host observations =
      { p with ctl := ((p.ctl.kickSystem host 1).load c).setGameSession host c.cradle observations }) :
    Moves Γ { (p.ctl.kickSystem host 1).load c with cradle := some c.cradle }
      (((p.ctl.kickSystem host 1).load c).setGameSession host c.cradle observations) := by
  have hquiet : Quiet p.ctl (p.ctl.kickSystem host 1) := SessionController.quiet_kickSystem 1 hnone
  have hheld' := Moves.held hquiet.moves hheld
  refine Stored.setGameSession ⟨hheld'.stored, hheld'.reorder⟩ (stored_loaded hp hs hnone hquiet hdisk) hΓ.leaves ?_
    fun n hn => hΓ.acknowledges n ?_
  · change (p.restore host observations).ctl.history.numbered = _ at hcareful
    rw [hrestore] at hcareful
    dsimp only at hcareful
    rw [hcareful, (hs.fresh hnone).history]
  · change n ≤ _ ∨ _ ∨ ¬ (p.restore host observations).Live
    rw [hrestore]
    rcases hn with hn | hended
    · exact .inl hn
    · exact .inr (.inr (not_live_of_ended hended))

theorem Durable.newSession_moves (hp : p.Durable) (hs : p.Sound Γ₀) {g : G}
    (hΓ : Allows Γ p host (.newSession g : Input G A)) (hheld : Held Γ p.ctl)
    (hcareful : p.Careful host (.newSession g : Input G A)) (hnone : p.ctl.cradle = none)
    (hdisk : p.disk = none) (hnew : p.newSession host g =
      { p with ctl := (p.ctl.kickSystem host 1).setGameSession host g ([] : List A) }) :
    Moves Γ { p.ctl.kickSystem host 1 with cradle := some g }
      ((p.ctl.kickSystem host 1).setGameSession host g ([] : List A)) := by
  have hquiet : Quiet p.ctl (p.ctl.kickSystem host 1) := SessionController.quiet_kickSystem 1 hnone
  have hheld' := Moves.held hquiet.moves hheld
  refine Stored.setGameSession ⟨hheld'.stored, hheld'.reorder⟩ (stored_installed hp hs hnone hquiet hdisk g) hΓ.leaves ?_
    fun n hn => hΓ.acknowledges n ?_
  · change (p.newSession host g).ctl.history.numbered = _ at hcareful
    rw [hnew] at hcareful
    dsimp only at hcareful
    rw [hcareful, (hs.fresh hnone).history]
  · change n ≤ _ ∨ _ ∨ ¬ (p.newSession host g).Live
    rw [hnew]
    rcases hn with hn | hended
    · exact .inl hn
    · exact .inr (.inr (not_live_of_ended hended))

/-- Whatever may be sent, a careful page lets go only of what is stored. -/
theorem Durable.next (hp : p.Durable) (hs : p.Sound Γ₀) (hcareful : p.Careful host input) :
    (p.next host input).Durable := by
  have hΓ : Allows (Traffic.upTo p.storedHistory) p host input := ⟨fun _ => Iff.rfl, fun _ _ => trivial⟩
  have hheld : Held (Traffic.upTo p.storedHistory) p.ctl := ⟨fun _ _ => trivial, fun _ _ _ => trivial⟩
  have hleaves (n : ℕ) (hn : (Traffic.upTo p.storedHistory).leaves n) : n ≤ p.storedHistory.numbered.length := hn
  cases input with
  | receive payload =>
    have hadmits (frame : PeerFrame) (_ : deliverRawPeerMessage payload = some frame) :
        (Traffic.upTo p.storedHistory).admits frame := by cases frame <;> trivial
    exact hp.moves (hp.receive_moves hs hΓ hheld hadmits hcareful) hleaves
  | call a => exact hp.moves (SessionController.callSession_moves a) hleaves
  | goOnChain => exact hp.moves SessionController.goOnChain_moves hleaves
  | drain => exact hp.moves (SessionController.drainOneEvent_moves hs.ctl.idle) hleaves
  | reconnect =>
    exact hp.moves (SessionController.resendUnacked_moves fun hresend => hp.retransmits hΓ hresend (hcareful hresend))
      hleaves
  | save => exact hp.save
  | beginFlush => exact hp.beginFlush fun e he => (hs.ctl.pending e he).le_length
  | queueWrite awaited => exact hp.queueWrite awaited
  | write => exact hp.write
  | failWrite => exact hp.failWrite
  | finishFlush => exact hp.finishFlush
  | cleanup => exact hp.moves SessionController.cleanup_moves hleaves
  | reload => exact hp.reload
  | restore observations =>
    change (p.restore host observations).Durable
    rcases restore_cases p host observations with h | ⟨c, hnone, hdisk, h⟩
    · rw [h]
      exact hp
    · have hquiet : Quiet p.ctl (p.ctl.kickSystem host 1) := SessionController.quiet_kickSystem 1 hnone
      have hmoves := hp.restore_moves hs hΓ hheld hcareful hnone hdisk h
      rw [h]
      refine hp.started (s := { (p.ctl.kickSystem host 1).load c with cradle := some c.cradle }) (fun hstop => ?_)
        hquiet.pendingOutboundSends hquiet.pendingAcks (hs.fresh hnone).history
        (stored_loaded hp hs hnone hquiet hdisk) ?_ hmoves
      · rwa [← hquiet.protocolStopped]
      · rw [storedHistory, hdisk]
        rfl
  | newSession g =>
    change (p.newSession host g).Durable
    rcases newSession_cases (A := A) p host g with h | ⟨hnone, hdisk, h⟩
    · rw [h]
      exact hp
    · have hquiet : Quiet p.ctl (p.ctl.kickSystem host 1) := SessionController.quiet_kickSystem 1 hnone
      have hmoves := hp.newSession_moves hs hΓ hheld hcareful hnone hdisk h
      rw [h]
      refine hp.started (s := { p.ctl.kickSystem host 1 with cradle := some g }) (fun hstop => ?_)
        hquiet.pendingOutboundSends hquiet.pendingAcks (hs.fresh hnone).history
        (stored_installed hp hs hnone hquiet hdisk g) (hquiet.history.trans (hs.fresh hnone).history) hmoves
      rwa [← hquiet.protocolStopped]

end Careful

end Party

/-! Both pages. -/

namespace Link

variable [ChiaGame G A] {cond : Party G → Host → Party.Input G A → Prop} {T : Link G}

/-- Careful pages may be loaded again at any time. -/
theorem Run.durable (h : Run cond T) (hcareful : ∀ p host input, cond p host input → p.Careful host input) :
    ∀ b, (T.party b).Sound (T.openTraffic b) ∧ (T.party b).Durable := by
  induction h with
  | start => exact fun _ => ⟨Party.Sound.initial, Party.Durable.initial⟩
  | @step T b host input _ hreceived hcond hfits ih =>
    have hsound := sound_step (fun r => (ih r).1) hreceived (fun _ => (ih b).2.covered) hfits
    refine fun r => ⟨hsound r, ?_⟩
    refine both_pages b (P := fun r => ((T.put b _).party r).Durable) ?_ ?_ r
    · rw [put_self]
      exact (ih b).2.next (ih b).1 (hcareful _ _ _ hcond)
    · rw [put_not]
      exact (ih (!b)).2

end Link

end Peer

end ChiaGaming
