import ChiaGaming.Session.Exclusion
import ChiaGaming.Session.Turns

namespace ChiaGaming

open OffChainPhase

/-! Two players in terms of their desks. -/

theorem both_players {P : Bool → Prop} (s : Bool) (hs : P s) (hns : P (!s)) : ∀ r, P r := by
  intro r
  by_cases hr : r = s
  · exact hr ▸ hs
  · obtain rfl : r = !s := by
      cases r <;> cases s <;> simp_all
    exact hns

/-- The desks of the players, each with the batches on the way to it. -/
structure Table where
  desk : Bool → Desk
  flight : Bool → List PeerBatch

def sentBy (events : List Event) : List PeerBatch :=
  events.filterMap fun event =>
    match event with
    | .sends b => some b
    | _ => none

def takenBy (events : List Event) : List PeerBatch :=
  events.filterMap fun event =>
    match event with
    | .receives b => some b
    | _ => none

@[simp] theorem sentBy_append (xs ys : List Event) : sentBy (xs ++ ys) = sentBy xs ++ sentBy ys :=
  List.filterMap_append

@[simp] theorem takenBy_append (xs ys : List Event) :
    takenBy (xs ++ ys) = takenBy xs ++ takenBy ys := List.filterMap_append

theorem sentBy_sentEvents (effects : List Effect) :
    sentBy (sentEvents effects) = batchesOf (messagesOf effects) := by
  rw [sentEvents, sentBy, List.filterMap_map]
  exact List.filterMap_some

theorem takenBy_sentEvents (effects : List Effect) : takenBy (sentEvents effects) = [] := by
  rw [sentEvents, takenBy, List.filterMap_map]
  exact List.filterMap_eq_nil_iff.mpr fun _ _ => rfl

theorem takenBy_receives (batches : List PeerBatch) :
    takenBy (batches.map .receives) = batches := by
  rw [takenBy, List.filterMap_map]
  exact List.filterMap_some

theorem sentBy_receives (batches : List PeerBatch) : sentBy (batches.map .receives) = [] := by
  rw [sentBy, List.filterMap_map]
  exact List.filterMap_eq_nil_iff.mpr fun _ _ => rfl

theorem OffChainPhase.Lapses.nothing {lapses : List Event} (h : Lapses lapses) :
    sentBy lapses = [] ∧ takenBy lapses = [] := by
  refine ⟨List.filterMap_eq_nil_iff.mpr fun event hevent => ?_,
    List.filterMap_eq_nil_iff.mpr fun event hevent => ?_⟩
  · rw [h event hevent]
  · rw [h event hevent]

namespace Table

variable {E : ChannelEnv} {gameTypes : Bool → List (Bytes × Option Clvm)} {T T' : Table}

/-- One player has moved on: some batches are left for it, and some more for the other. -/
def put (T : Table) (s : Bool) (t : Desk) (rest sent : List PeerBatch) : Table where
  desk := Function.update T.desk s t
  flight := Function.update (Function.update T.flight s rest) (!s) (T.flight (!s) ++ sent)

@[simp] theorem put_desk_self (s : Bool) (t : Desk) (rest sent : List PeerBatch) :
    (T.put s t rest sent).desk s = t := Function.update_self ..

@[simp] theorem put_desk_not (s : Bool) (t : Desk) (rest sent : List PeerBatch) :
    (T.put s t rest sent).desk (!s) = T.desk (!s) :=
  Function.update_of_ne (Bool.not_ne_self s) ..

@[simp] theorem put_flight_self (s : Bool) (t : Desk) (rest sent : List PeerBatch) :
    (T.put s t rest sent).flight s = rest :=
  (Function.update_of_ne (Bool.not_ne_self s).symm ..).trans (Function.update_self ..)

@[simp] theorem put_flight_not (s : Bool) (t : Desk) (rest sent : List PeerBatch) :
    (T.put s t rest sent).flight (!s) = T.flight (!s) ++ sent := Function.update_self ..

theorem put_put (s : Bool) (t t' : Desk) (rest rest' sent sent' : List PeerBatch) :
    (T.put s t rest sent).put s t' rest' sent' = T.put s t' rest' (sent ++ sent') := by
  rw [put, put_flight_not]
  simp only [put, Function.update_idem, List.append_assoc]
  congr 1
  funext r
  by_cases hr : r = !s
  · subst hr
    simp
  · obtain rfl : r = s := by
      cases r <;> cases s <;> simp_all
    simp [hr]

/-- A turn of one of the players. -/
inductive Step (E : ChannelEnv) (gameTypes : Bool → List (Bytes × Option Clvm)) (T : Table) :
    List Event → Table → Prop where
  | turn (s : Bool) {events : List Event} {t' : Desk} (rest : List PeerBatch)
      (h : Turn E (gameTypes s) (T.desk s) events t') (hflight : T.flight s = takenBy events ++ rest) :
      Step E gameTypes T events (T.put s t' rest (sentBy events))

inductive Steps (E : ChannelEnv) (gameTypes : Bool → List (Bytes × Option Clvm)) (T : Table) :
    List Event → Table → Prop where
  | refl : Steps E gameTypes T [] T
  | step {events events' : List Event} {T₁ T₂ : Table} (h : Steps E gameTypes T events T₁)
      (hstep : Step E gameTypes T₁ events' T₂) : Steps E gameTypes T (events ++ events') T₂

theorem Steps.trans {T T₁ T₂ : Table} {events events' : List Event}
    (h : Steps E gameTypes T events T₁) (h' : Steps E gameTypes T₁ events' T₂) :
    Steps E gameTypes T (events ++ events') T₂ := by
  induction h' with
  | refl =>
    rw [List.append_nil]
    exact h
  | step _ hstep ih =>
    rw [← List.append_assoc]
    exact .step ih hstep

theorem steps_of_turns {s : Bool} {events : List Event} {t' : Desk}
    (h : Turns E (gameTypes s) (T.desk s) events t') (rest : List PeerBatch)
    (hflight : T.flight s = takenBy events ++ rest) :
    Steps E gameTypes T events (T.put s t' rest (sentBy events)) := by
  induction h generalizing rest with
  | refl =>
    have hsame : T.put s (T.desk s) rest (sentBy []) = T := by
      have hrest : T.flight s = rest := hflight
      rw [put, ← hrest]
      simp [sentBy]
    rw [hsame]
    exact .refl
  | step _ hturn ih =>
    rename_i events₁ events₂ t₁ t₂ _
    rw [takenBy_append, List.append_assoc] at hflight
    have hstep := Step.turn (T := T.put s t₁ (takenBy events₂ ++ rest) (sentBy events₁)) s rest
      (by rw [put_desk_self]; exact hturn) (by rw [put_flight_self])
    rw [put_put] at hstep
    rw [sentBy_append]
    exact .step (ih _ hflight) hstep

end Table

namespace Joint

variable {E : ChannelEnv} {gameTypes : Bool → List (Bytes × Option Clvm)} {j j' : Joint} {T : Table}

/-- A table that shows what the players work on. -/
structure Laid (j : Joint) (gameTypes : Bool → List (Bytes × Option Clvm)) (T : Table) : Prop where
  types : ∀ s, (j.peer s).gameTypes = gameTypes s
  desk : ∀ s, (j.peer s).At (T.desk s)
  flight : ∀ s, T.flight s = batchesOf (j.inbox s)

theorem Laid.put {s : Bool} {p : OffChainPhase} {out : List PeerMessage} {events : List Event}
    {t : Desk} (h : j.Laid gameTypes T) (htypes : p.gameTypes = gameTypes s) (ht : p.At t)
    (hsent : sentBy events = batchesOf out) :
    (j.put s p out).Laid gameTypes
      (T.put s t (batchesOf (p.incomingMessages ++ j.wire s)) (sentBy events)) := by
  refine ⟨both_players s ?_ ?_, both_players s ?_ ?_, both_players s ?_ ?_⟩
  · simpa [Joint.put] using htypes
  · simpa [Joint.put, Function.update] using h.types (!s)
  · simpa [Joint.put] using ht
  · simpa [Joint.put, Function.update] using h.desk (!s)
  · simp [Joint.put, inbox]
  · rw [Table.put_flight_not, h.flight, hsent, ← batchesOf_append]
    simp [Joint.put, inbox, Function.update]

theorem Laid.works {s : Bool} {p : OffChainPhase} {events : List Event}
    (h : j.Laid gameTypes T) (out : List PeerMessage) (hworks : Works E (j.peer s) p events)
    (hsent : sentBy events = batchesOf out)
    (htaken : batchesOf (j.peer s).incomingMessages =
      takenBy events ++ batchesOf p.incomingMessages) :
    ∃ T', Table.Steps E gameTypes T events T' ∧ (j.put s p out).Laid gameTypes T' := by
  obtain ⟨htypes, t, ht, hturns⟩ := hworks (T.desk s) (h.desk s)
  rw [h.types] at htypes hturns
  refine ⟨_, Table.steps_of_turns hturns (batchesOf (p.incomingMessages ++ j.wire s)) ?_,
    h.put htypes ht hsent⟩
  rw [h.flight, inbox, batchesOf_append, batchesOf_append, htaken, List.append_assoc]

/-- A message that arrives was on the way already. -/
theorem Laid.arrive {s : Bool} {msg : PeerMessage} {rest : List PeerMessage}
    (h : j.Laid gameTypes T) (hwire : j.wire s = msg :: rest) :
    (j.arrive s msg rest).Laid gameTypes T := by
  have hpeer : ∀ r, ∃ messages, (j.arrive s msg rest).peer r =
      { j.peer r with incomingMessages := messages } := by
    intro r
    by_cases hr : r = s
    · subst hr
      exact ⟨(j.peer r).incomingMessages ++ [msg], by simp [Joint.arrive]⟩
    · exact ⟨(j.peer r).incomingMessages, by simp [Joint.arrive, hr]⟩
  have hinbox : ∀ r, (j.arrive s msg rest).inbox r = j.inbox r := by
    intro r
    by_cases hr : r = s
    · subst hr
      simp [inbox, Joint.arrive, hwire]
    · simp [inbox, Joint.arrive, hr]
  refine ⟨fun r => ?_, fun r => ?_, fun r => by rw [hinbox, h.flight]⟩
  · obtain ⟨messages, hr⟩ := hpeer r
    rw [hr]
    exact h.types r
  · obtain ⟨messages, hr⟩ := hpeer r
    rw [hr]
    exact ⟨(h.desk r).channel, (h.desk r).queue, (h.desk r).potato⟩

/-- What a local action leaves unread. -/
theorem incomingMessages_runLocal {input : LocalInput} {p : OffChainPhase} :
    ((runLocal E input).after p).incomingMessages = p.incomingMessages := by
  cases hr : runLocal E input p with
  | ok effects p' =>
    rw [Act.after_of_ok hr]
    cases runLocal_ok hr with
    | asks hasks => exact (congrArg (fun c => c.2.2.1) hasks.custody :)
    | sends b hsends _ _ => exact hsends.messages
  | error e p' =>
    rw [Act.after_of_error hr]
    exact (congrArg (fun c => c.2.2.1) (runLocal_error hr).custody :)

theorem nothing_of_grants {grants : List Event} {ids : List GameID} (h : Grants grants ids) :
    sentBy grants = [] ∧ takenBy grants = [] := by
  rcases h with ⟨rfl, -⟩ | rfl
  · exact ⟨rfl, rfl⟩
  · exact ⟨rfl, rfl⟩

theorem act_table {s : Bool} {input : LocalInput} {effects : List Effect} {p' : OffChainPhase}
    (hlaid : j.Laid gameTypes T) (h : runLocal E input (j.peer s) = .ok effects p') :
    ∃ grants T', Grants grants (grantedIds E input (j.peer s)) ∧
      Table.Steps E gameTypes T (grants ++ sentEvents effects) T' ∧
      (j.put s p' (messagesOf effects)).Laid gameTypes T' := by
  obtain ⟨grants, hgrants, hworks⟩ := runLocal_works h
  obtain ⟨hunsent, huntaken⟩ := nothing_of_grants hgrants
  obtain ⟨T', hsteps, hlaid'⟩ := hlaid.works (messagesOf effects) hworks
    (by rw [sentBy_append, hunsent, sentBy_sentEvents]; rfl)
    (by rw [takenBy_append, huntaken, takenBy_sentEvents, List.nil_append, List.nil_append,
      ← Act.after_of_ok h, incomingMessages_runLocal])
  exact ⟨grants, T', hgrants, hsteps, hlaid'⟩

theorem read_table {s : Bool} {effects : List Effect} {p' : OffChainPhase}
    (hlaid : j.Laid gameTypes T) (h : processQueuedMessage E (j.peer s) = .ok effects p')
    (hnext : p'.channelSpendNextPhase = none) :
    ∃ (batches : List PeerBatch) (lapses : List Event) (T' : Table), Lapses lapses ∧
      (Unfailed effects → lapses = []) ∧
      Table.Steps E gameTypes T (batches.map .receives ++ lapses ++ sentEvents effects) T' ∧
      (j.put s p' (messagesOf effects)).Laid gameTypes T' := by
  obtain ⟨batches, htaken, lapses, hlapses, hnone, hworks⟩ := processQueuedMessage_works h hnext
  obtain ⟨hunsent, huntaken⟩ := hlapses.nothing
  obtain ⟨T', hsteps, hlaid'⟩ := hlaid.works (messagesOf effects) hworks
    (by rw [sentBy_append, sentBy_append, sentBy_receives, hunsent, sentBy_sentEvents]; rfl)
    (by rw [takenBy_append, takenBy_append, takenBy_receives, huntaken, takenBy_sentEvents,
      List.append_nil, List.append_nil, htaken])
  exact ⟨batches, lapses, T', hlapses, hnone, hsteps, hlaid'⟩

/-- A step of the two players is a number of turns at the table. -/
theorem Step.table (h : Step E j j') (hlaid : j.Laid gameTypes T) :
    ∃ events T', Table.Steps E gameTypes T events T' ∧ j'.Laid gameTypes T' := by
  cases h with
  | act s input hr =>
    obtain ⟨grants, T', -, hsteps, hlaid'⟩ := act_table hlaid hr
    exact ⟨_, T', hsteps, hlaid'⟩
  | fail s input hr =>
    obtain ⟨lapses, hlapses, hworks⟩ := runLocal_works_error hr
    obtain ⟨hunsent, huntaken⟩ := hlapses.nothing
    obtain ⟨T', hsteps, hlaid'⟩ := hlaid.works [] hworks hunsent
      (by rw [huntaken, List.nil_append, ← Act.after_of_error hr, incomingMessages_runLocal])
    exact ⟨_, T', hsteps, hlaid'⟩
  | arrive s msg rest hwire => exact ⟨[], T, .refl, hlaid.arrive hwire⟩
  | read s hr hnext =>
    obtain ⟨batches, lapses, T', -, -, hsteps, hlaid'⟩ := read_table hlaid hr hnext
    exact ⟨_, T', hsteps, hlaid'⟩

/-- The table at the end of the handshake. -/
def opened (o : Bool → Opening E) : Table := ⟨fun s => Desk.opening (o s), fun _ => []⟩

theorem laid_start (o : Bool → Opening E) (incoming wire : Bool → List PeerMessage)
    (hincoming : ∀ s, potatoMessages (incoming s) = []) (hwire : ∀ s, potatoMessages (wire s) = []) :
    Laid ⟨fun s => .fromCompletedHandshake (o s) (gameTypes s) (incoming s), wire⟩ gameTypes
      (opened o) := by
  refine ⟨fun s => rfl, fun s => ⟨rfl, rfl, ?_⟩, fun s => ?_⟩
  · show decide ((if (o s).initiator then PotatoState.present else .absent) = .present) =
      (o s).initiator
    cases (o s).initiator <;> rfl
  · show [] = batchesOf (incoming s ++ wire s)
    rw [← batchesOf_potatoMessages, potatoMessages_append, hincoming, hwire]
    rfl

end Joint

end ChiaGaming
