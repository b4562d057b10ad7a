import Mathlib.Tactic

namespace ChiaGaming

/-! Two parties hand one token back and forth over channels that keep the order, and ask for it when
they are without it.  A party may declare the token it sends to be the last. -/

namespace Token

inductive Message where
  | token (last : Bool)
  | request
  deriving DecidableEq

namespace Message

def isToken : Message → Bool
  | token _ => true
  | request => false

end Message

inductive Custody where
  | idle
  | asking
  | holding
  deriving DecidableEq

structure Party where
  custody : Custody
  -- the other party's request waits for the token to come
  owes : Bool
  -- the last token has been sent
  closed : Bool
  inbox : List Message

namespace Party

def receive (p : Party) (msg : Message) : Party := { p with inbox := p.inbox ++ [msg] }

/-- The tokens at a party or on their way to it. -/
def tokens (p : Party) : ℕ :=
  (if p.custody = .holding then 1 else 0) + p.inbox.countP Message.isToken

end Party

/-- A step of one party, with what becomes of the other. -/
inductive Step (x y : Party) : Party → Party → Prop where
  | ask (h : x.custody = .idle) : Step x y { x with custody := .asking } (y.receive .request)
  | send (last owes : Bool) (h : x.custody = .holding) :
      Step x y { x with custody := .idle, owes, closed := last || x.closed }
        (y.receive (.token last))
  | note (rest : List Message) (hinbox : x.inbox = .request :: rest) (h : x.custody ≠ .holding) :
      Step x y { x with owes := true, inbox := rest } y
  | ignore (rest : List Message) (hinbox : x.inbox = .request :: rest) (h : x.closed) :
      Step x y { x with inbox := rest } y
  | pass (last : Bool) (rest : List Message) (hinbox : x.inbox = .request :: rest)
      (h : x.custody = .holding) :
      Step x y { x with custody := .idle, owes := false, closed := last || x.closed, inbox := rest }
        (y.receive (.token last))
  | take (rest : List Message) (hinbox : x.inbox = .token false :: rest)
      (h : x.custody ≠ .holding) : Step x y { x with custody := .holding, inbox := rest } y

/-- Steps of one party in a row. -/
inductive Steps (x y : Party) : Party → Party → Prop where
  | refl : Steps x y x y
  | step {x₁ y₁ x₂ y₂ : Party} (h : Steps x y x₁ y₁) (hstep : Step x₁ y₁ x₂ y₂) : Steps x y x₂ y₂

theorem Step.steps {x y x' y' : Party} (h : Step x y x' y') : Steps x y x' y' := .step .refl h

/-- A party that asked is served, or its request is still on the way. -/
def Heard (x y : Party) : Prop :=
  x.custody = .asking → .request ∈ y.inbox ∨ y.owes = true ∨ ∃ last, .token last ∈ x.inbox

/-- The last token is not read as long as the parties go on. -/
def Closing (x y : Party) : Prop := x.closed = true → .token true ∈ y.inbox

/-- There is one token, and no request is lost. -/
structure Safe (x y : Party) : Prop where
  one : x.tokens + y.tokens = 1
  heard : Heard x y
  heard' : Heard y x
  closing : Closing x y
  closing' : Closing y x

theorem Safe.symm {x y : Party} (h : Safe x y) : Safe y x :=
  ⟨(add_comm _ _).trans h.one, h.heard', h.heard, h.closing', h.closing⟩

section Receive

variable {x y : Party} (msg : Message)

theorem Party.tokens_receive : (y.receive msg).tokens = y.tokens + if msg.isToken then 1 else 0 := by
  simp only [Party.tokens, Party.receive, List.countP_append, List.countP_singleton, add_assoc]
  rfl

theorem Heard.receive (h : Heard x y) : Heard x (y.receive msg) := by
  intro hasking
  rcases h hasking with hmem | howes | htoken
  · exact .inl (List.mem_append_left _ hmem)
  · exact .inr (.inl howes)
  · exact .inr (.inr htoken)

theorem Heard.receive' (h : Heard y x) : Heard (y.receive msg) x := by
  intro hasking
  rcases h hasking with hmem | howes | ⟨last, hmem⟩
  · exact .inl hmem
  · exact .inr (.inl howes)
  · exact .inr (.inr ⟨last, List.mem_append_left _ hmem⟩)

theorem Closing.receive (h : Closing x y) : Closing x (y.receive msg) :=
  fun hclosed => List.mem_append_left _ (h hclosed)

/-- The last token closes, and an earlier one stays on the way. -/
theorem Closing.send {x' : Party} (h : Closing x y) (last : Bool)
    (hclosed : x'.closed = (last || x.closed) := by rfl) : Closing x' (y.receive (.token last)) := by
  intro hclosed'
  cases last with
  | true => exact List.mem_append_right _ (List.mem_singleton_self _)
  | false => exact List.mem_append_left _ (h (hclosed.symm.trans hclosed'))

theorem heard_of_ne (h : x.custody ≠ .asking) : Heard x y := fun hasking => absurd hasking h

/-- A token on the way answers any request. -/
theorem heard_of_token (x y : Party) (last : Bool) : Heard (y.receive (.token last)) x :=
  fun _ => .inr (.inr ⟨last, List.mem_append_right _ (List.mem_singleton_self _)⟩)

end Receive

theorem mem_of_request {inbox rest : List Message} {last : Bool}
    (h : inbox = .request :: rest) (hmem : .token last ∈ inbox) : .token last ∈ rest := by
  rw [h] at hmem
  rcases List.mem_cons.mp hmem with heq | hmem
  · cases heq
  · exact hmem

/-- A request that is read by a party that keeps its custody. -/
theorem Safe.request {x y : Party} {rest : List Message} {owes : Bool} (hsafe : Safe x y)
    (hinbox : x.inbox = .request :: rest) (hheard : Heard y { x with owes, inbox := rest }) :
    Safe { x with owes, inbox := rest } y := by
  refine ⟨?_, ?_, hheard, hsafe.closing, fun hclosed => mem_of_request hinbox (hsafe.closing' hclosed)⟩
  · have hone := hsafe.one
    rw [Party.tokens, hinbox, List.countP_cons_of_neg (by decide)] at hone
    exact hone
  · intro hasking
    rcases hsafe.heard hasking with hmem | howes | ⟨last, hmem⟩
    · exact .inl hmem
    · exact .inr (.inl howes)
    · exact .inr (.inr ⟨last, mem_of_request hinbox hmem⟩)

theorem Step.safe {x y x' y' : Party} (h : Step x y x' y') (hsafe : Safe x y) : Safe x' y' := by
  have hone := hsafe.one
  cases h with
  | ask h =>
    refine ⟨?_, ?_, hsafe.heard'.receive' _, hsafe.closing.receive _, hsafe.closing'⟩
    · rw [Party.tokens_receive]
      simpa [Party.tokens, h, Message.isToken] using hone
    · exact fun _ => .inl (List.mem_append_right _ (List.mem_singleton_self _))
  | send last owes h =>
    refine ⟨?_, heard_of_ne (by simp), heard_of_token _ y last, hsafe.closing.send last,
      hsafe.closing'⟩
    rw [Party.tokens_receive]
    simp only [Party.tokens, h, Message.isToken, if_true] at hone ⊢
    simp only [reduceCtorEq, if_false]
    omega
  | note rest hinbox h => exact hsafe.request hinbox fun _ => .inr (.inl rfl)
  | ignore rest hinbox h =>
    -- the other party's token is on the way
    exact hsafe.request hinbox fun _ => .inr (.inr ⟨true, hsafe.closing h⟩)
  | pass last rest hinbox h =>
    refine ⟨?_, heard_of_ne (by simp), heard_of_token _ y last, hsafe.closing.send last,
      fun hclosed => mem_of_request hinbox (hsafe.closing' hclosed)⟩
    rw [Party.tokens_receive]
    simp only [Party.tokens, h, hinbox, Message.isToken, if_true, List.countP_cons] at hone ⊢
    simp only [reduceCtorEq, if_false]
    omega
  | take rest hinbox h =>
    refine ⟨?_, heard_of_ne (by simp), ?_, hsafe.closing, ?_⟩
    · simp only [Party.tokens, h, hinbox, Message.isToken, if_true, if_false,
        List.countP_cons] at hone ⊢
      omega
    · intro hasking
      rcases hsafe.heard' hasking with hmem | howes | htoken
      · rw [hinbox] at hmem
        rcases List.mem_cons.mp hmem with heq | hmem
        · cases heq
        · exact .inl hmem
      · exact .inr (.inl howes)
      · exact .inr (.inr htoken)
    · intro hclosed
      have hmem := hsafe.closing' hclosed
      rw [hinbox] at hmem
      rcases List.mem_cons.mp hmem with heq | hmem
      · cases heq
      · exact hmem

theorem Steps.safe {x y x' y' : Party} (h : Steps x y x' y') (hsafe : Safe x y) : Safe x' y' := by
  induction h with
  | refl => exact hsafe
  | step _ hstep ih => exact hstep.safe ih

/-- A token that arrives finds no other. -/
theorem Safe.not_holding {x y : Party} (h : Safe x y) {last : Bool} (hmem : .token last ∈ x.inbox) :
    x.custody ≠ .holding := by
  intro hholding
  have hpos : 0 < x.inbox.countP Message.isToken := List.countP_pos_iff.mpr ⟨_, hmem, rfl⟩
  have hone := h.one
  rw [Party.tokens, if_pos hholding] at hone
  omega

end Token

end ChiaGaming
