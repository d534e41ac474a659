import Mathlib.Data.List.Basic

/-!
# Conversations

A party that is asked one thing after the other. It reads the text of a
request in parts, begins with the request when its text is whole, at once
or by a job that takes a while, writes the response in parts, and reads on
behind a response that does not close the conversation. All parties work
on one world, which only beginning with a request changes.

Whatever a party does, what has come in are the texts of the requests it
has answered, in their order and with the unread part behind them, and
what has gone out are their responses (`Accounted`). The same holds of
each conversation in a hall where many are held side by side
(`Hall.regular`).
-/

universe u

namespace Conversation

/-- What a party does with requests `Q`, jobs `J` and a world `W`; `E` is
what it reads of its environment. -/
structure Service (B Q J E W : Type u) where
  /-- the texts that are requests -/
  Asks : List B → Q → Prop
  /-- a request is answered at once, or by a job -/
  Begins : E → W → Q → List B ⊕ J → W → Prop
  Works : J → J → Prop
  Ends : E → W → Q → J → List B → Prop
  /-- the conversation is over behind the response -/
  Closes : Q → Prop

/-- A request with its text and its response. -/
structure Exchange (B Q : Type u) where
  text : List B
  ask : Q
  response : List B

/-- What the party is about to do. -/
inductive Phase (B Q J : Type u) where
  | reading (part : List B)
  | working (text : List B) (ask : Q) (job : J)
  | writing (ask : Q) (rest : List B)
  /-- with a part of a request that is not answered, and a rest of a
  response that is not written -/
  | closed (part rest : List B)

namespace Phase

variable {B Q J : Type u}

/-- What has come in and is not answered. -/
def unanswered : Phase B Q J → List B
  | .reading part => part
  | .working text _ _ => text
  | .writing _ _ => []
  | .closed part _ => part

/-- What is answered and has not gone out. -/
def unwritten : Phase B Q J → List B
  | .reading _ => []
  | .working _ _ _ => []
  | .writing _ rest => rest
  | .closed _ rest => rest

end Phase

structure State (B Q J : Type u) where
  phase : Phase B Q J
  /-- the requests that are answered -/
  log : List (Exchange B Q) := []

variable {B Q J E W : Type u}

namespace State

def texts (s : State B Q J) : List B := (s.log.map Exchange.text).flatten

def responses (s : State B Q J) : List B := (s.log.map Exchange.response).flatten

/-- The response of a request is there. -/
def answer (s : State B Q J) (text : List B) (ask : Q) (response : List B) : State B Q J where
  phase := .writing ask response
  log := s.log ++ [⟨text, ask, response⟩]

theorem texts_answer (s : State B Q J) (text : List B) (ask : Q) (response : List B) :
    (s.answer text ask response).texts = s.texts ++ text := by
  simp [texts, answer]

theorem responses_answer (s : State B Q J) (text : List B) (ask : Q) (response : List B) :
    (s.answer text ask response).responses = s.responses ++ response := by
  simp [responses, answer]

end State

namespace Service

variable (S : Service B Q J E W)

/-- More is to come of a request. -/
def Awaits (part : List B) : Prop := ∃ more q, more ≠ [] ∧ S.Asks (part ++ more) q

/-- A step, with what comes in and what goes out. -/
inductive Step : W → State B Q J → List B → List B → W → State B Q J → Prop where
  | read {w : W} {log : List (Exchange B Q)} {part bytes : List B}
      (hmore : S.Awaits (part ++ bytes)) :
      Step w ⟨.reading part, log⟩ bytes [] w ⟨.reading (part ++ bytes), log⟩
  | answer {e : E} {w w' : W} {log : List (Exchange B Q)} {part bytes response : List B} {q : Q}
      (hask : S.Asks (part ++ bytes) q) (hbegin : S.Begins e w q (.inl response) w') :
      Step w ⟨.reading part, log⟩ bytes [] w'
        (State.answer ⟨.reading part, log⟩ (part ++ bytes) q response)
  | launch {e : E} {w w' : W} {log : List (Exchange B Q)} {part bytes : List B} {q : Q} {j : J}
      (hask : S.Asks (part ++ bytes) q) (hbegin : S.Begins e w q (.inr j) w') :
      Step w ⟨.reading part, log⟩ bytes [] w' ⟨.working (part ++ bytes) q j, log⟩
  | work {w : W} {log : List (Exchange B Q)} {text : List B} {q : Q} {j j' : J}
      (hwork : S.Works j j') :
      Step w ⟨.working text q j, log⟩ [] [] w ⟨.working text q j', log⟩
  | finish {e : E} {w : W} {log : List (Exchange B Q)} {text response : List B} {q : Q} {j : J}
      (hend : S.Ends e w q j response) :
      Step w ⟨.working text q j, log⟩ [] [] w
        (State.answer ⟨.working text q j, log⟩ text q response)
  | write {w : W} {log : List (Exchange B Q)} {q : Q} {bytes rest : List B} (hrest : rest ≠ []) :
      Step w ⟨.writing q (bytes ++ rest), log⟩ [] bytes w ⟨.writing q rest, log⟩
  | next {w : W} {log : List (Exchange B Q)} {q : Q} {bytes : List B} (hopen : ¬S.Closes q) :
      Step w ⟨.writing q bytes, log⟩ [] bytes w ⟨.reading [], log⟩
  | last {w : W} {log : List (Exchange B Q)} {q : Q} {bytes : List B} (hclose : S.Closes q) :
      Step w ⟨.writing q bytes, log⟩ [] bytes w ⟨.closed [] [], log⟩
  /-- the conversation is broken off -/
  | leave {w : W} {log : List (Exchange B Q)} {phase : Phase B Q J} :
      Step w ⟨phase, log⟩ [] [] w ⟨.closed phase.unanswered phase.unwritten, log⟩

/-- Any number of steps, with all that comes in and goes out. -/
inductive Steps : W → State B Q J → List B → List B → W → State B Q J → Prop where
  | refl (w : W) (s : State B Q J) : Steps w s [] [] w s
  | tail {w w' w'' : W} {s s' s'' : State B Q J} {i i' o o' : List B}
      (hsteps : Steps w s i o w' s') (hstep : S.Step w' s' i' o' w'' s'') :
      Steps w s (i ++ i') (o ++ o') w'' s''

variable {S}
variable {w w' w'' : W} {s s' s'' : State B Q J} {i i' o o' : List B}

theorem Steps.single (h : S.Step w s i o w' s') : S.Steps w s i o w' s' :=
  .tail (.refl w s) h

theorem Steps.trans (h : S.Steps w s i o w' s') (h' : S.Steps w' s' i' o' w'' s'') :
    S.Steps w s (i ++ i') (o ++ o') w'' s'' := by
  induction h' with
  | refl => simpa using h
  | tail _ hstep ih =>
      rw [← List.append_assoc, ← List.append_assoc]
      exact .tail (ih h) hstep

/-! ## What a conversation has been -/

/-- What has come in and what has gone out is what the log says. -/
structure Accounted (s : State B Q J) (received sent : List B) : Prop where
  received : received = s.texts ++ s.phase.unanswered
  sent : s.responses = sent ++ s.phase.unwritten

variable {received sent : List B}

theorem accounted_start : Accounted (⟨.reading [], []⟩ : State B Q J) [] [] := ⟨rfl, rfl⟩

/-- A step that answers nothing. -/
theorem Accounted.unlogged {log : List (Exchange B Q)} {phase phase' : Phase B Q J}
    {received sent : List B} (hs : Accounted ⟨phase, log⟩ received sent)
    (hin : phase.unanswered ++ i = phase'.unanswered)
    (hout : phase.unwritten = o ++ phase'.unwritten) :
    Accounted ⟨phase', log⟩ (received ++ i) (sent ++ o) := by
  refine ⟨?_, ?_⟩
  · rw [hs.received, List.append_assoc]
    exact congrArg (_ ++ ·) hin
  · rw [List.append_assoc, ← hout]
    exact hs.sent

/-- A step that puts down a response. -/
theorem Accounted.answer (hs : Accounted s received sent) {text response : List B} {q : Q}
    (hin : s.phase.unanswered ++ i = text) (hout : s.phase.unwritten = []) :
    Accounted (s.answer text q response) (received ++ i) (sent ++ []) := by
  obtain ⟨hreceived, hsent⟩ := hs
  rw [hout] at hsent
  refine ⟨?_, ?_⟩
  · rw [State.texts_answer, hreceived, List.append_assoc, hin]
    simp [State.answer, Phase.unanswered]
  · rw [State.responses_answer, hsent]
    simp [State.answer, Phase.unwritten]

theorem Step.accounted (h : S.Step w s i o w' s') (hs : Accounted s received sent) :
    Accounted s' (received ++ i) (sent ++ o) := by
  cases h with
  | read => exact hs.unlogged rfl rfl
  | answer => exact hs.answer rfl rfl
  | launch => exact hs.unlogged rfl rfl
  | work => exact hs.unlogged (List.append_nil _) rfl
  | finish => exact hs.answer (List.append_nil _) rfl
  | write => exact hs.unlogged rfl rfl
  | next => exact hs.unlogged rfl (List.append_nil _).symm
  | last => exact hs.unlogged rfl (List.append_nil _).symm
  | leave => exact hs.unlogged (List.append_nil _) rfl

theorem Steps.accounted (h : S.Steps w s i o w' s')
    (hs : Accounted s received sent) : Accounted s' (received ++ i) (sent ++ o) := by
  induction h with
  | refl => simpa using hs
  | tail _ hstep ih =>
      rw [← List.append_assoc, ← List.append_assoc]
      exact hstep.accounted (ih hs)

variable (S)

/-- A job on a request, as far as it has gone. -/
inductive OnJob (q : Q) : J → Prop where
  | begin {e : E} {w w' : W} {j : J} (hbegin : S.Begins e w q (.inr j) w') : OnJob q j
  | work {j j' : J} (hjob : OnJob q j) (hwork : S.Works j j') : OnJob q j'

/-- The responses a request can have. -/
inductive Responds (q : Q) (response : List B) : Prop where
  | atOnce {e : E} {w w' : W} (hbegin : S.Begins e w q (.inl response) w')
  | byJob {e : E} {w : W} {j : J} (hjob : S.OnJob q j) (hend : S.Ends e w q j response)

/-- An exchange that the service allows. -/
structure Allowed (x : Exchange B Q) : Prop where
  asks : S.Asks x.text x.ask
  responds : S.Responds x.ask x.response

/-- What a phase says of the request in hand. -/
def InHand (log : List (Exchange B Q)) : Phase B Q J → Prop
  | .reading _ => ∀ x ∈ log, ¬S.Closes x.ask
  | .working text q j => S.Asks text q ∧ S.OnJob q j ∧ ∀ x ∈ log, ¬S.Closes x.ask
  | .writing q _ => ∃ before last, log = before ++ [last] ∧ last.ask = q
      ∧ ∀ x ∈ before, ¬S.Closes x.ask
  | .closed _ _ => ∀ x ∈ log.dropLast, ¬S.Closes x.ask

/-- Every exchange so far is allowed, and none is behind one that closes. -/
structure Sound (s : State B Q J) : Prop where
  allowed : ∀ x ∈ s.log, S.Allowed x
  inHand : S.InHand s.log s.phase

variable {S}

theorem sound_start : S.Sound ⟨.reading [], []⟩ :=
  ⟨fun _ hx => (List.not_mem_nil hx).elim, fun _ hx => (List.not_mem_nil hx).elim⟩

/-- The response of the request in hand is put down. -/
theorem Sound.answer {phase : Phase B Q J} {log : List (Exchange B Q)} {text response : List B}
    {q : Q} (hlog : ∀ x ∈ log, S.Allowed x) (hopen : ∀ x ∈ log, ¬S.Closes x.ask)
    (hx : S.Allowed ⟨text, q, response⟩) :
    S.Sound (State.answer ⟨phase, log⟩ text q response) := by
  refine ⟨fun x hmem => ?_, log, _, rfl, rfl, hopen⟩
  rcases List.mem_append.mp hmem with hmem | hmem
  · exact hlog x hmem
  · obtain rfl := List.mem_singleton.mp hmem
    exact hx

theorem Step.sound (h : S.Step w s i o w' s') (hs : S.Sound s) : S.Sound s' := by
  obtain ⟨hlog, hhand⟩ := hs
  cases h with
  | read => exact ⟨hlog, hhand⟩
  | answer hask hbegin => exact Sound.answer hlog hhand ⟨hask, .atOnce hbegin⟩
  | launch hask hbegin => exact ⟨hlog, hask, .begin hbegin, hhand⟩
  | work hwork => exact ⟨hlog, hhand.1, .work hhand.2.1 hwork, hhand.2.2⟩
  | finish hend => exact Sound.answer hlog hhand.2.2 ⟨hhand.1, .byJob hhand.2.1 hend⟩
  | write => exact ⟨hlog, hhand⟩
  | next hopen =>
      obtain ⟨before, last, rfl, rfl, hbefore⟩ := hhand
      refine ⟨hlog, fun x hx => ?_⟩
      rcases List.mem_append.mp hx with hx | hx
      · exact hbefore x hx
      · obtain rfl := List.mem_singleton.mp hx
        exact hopen
  | last hclose =>
      obtain ⟨before, last, rfl, -, hbefore⟩ := hhand
      exact ⟨hlog, by simpa [InHand] using hbefore⟩
  | @leave _ log phase =>
      refine ⟨hlog, ?_⟩
      cases phase with
      | reading part => exact fun x hx => hhand x (List.dropLast_subset _ hx)
      | working text q j => exact fun x hx => hhand.2.2 x (List.dropLast_subset _ hx)
      | writing q rest =>
          obtain ⟨before, last, rfl, -, hbefore⟩ := hhand
          simpa [InHand] using hbefore
      | closed part rest => exact hhand

theorem Steps.sound (h : S.Steps w s i o w' s') (hs : S.Sound s) : S.Sound s' := by
  induction h with
  | refl => exact hs
  | tail _ hstep ih => exact hstep.sound (ih hs)

end Service

/-! ## Many conversations -/

/-- A conversation, with what has come in and gone out. -/
structure Party (B Q J : Type u) where
  state : State B Q J
  received : List B
  sent : List B

def Party.start : Party B Q J := ⟨⟨.reading [], []⟩, [], []⟩

/-- A place with a service, at which one conversation is held behind the
other. -/
structure Seat (G B Q J : Type u) where
  key : G
  past : List (Party B Q J) := []
  now : Party B Q J := Party.start

namespace Seat

variable {G : Type u}

/-- All that has come in at this place. -/
def received (seat : Seat G B Q J) : List B :=
  (seat.past.map Party.received).flatten ++ seat.now.received

def sent (seat : Seat G B Q J) : List B :=
  (seat.past.map Party.sent).flatten ++ seat.now.sent

/-- The conversation has gone on. -/
def go (seat : Seat G B Q J) (input output : List B) (s : State B Q J) : Seat G B Q J :=
  { seat with now := ⟨s, seat.now.received ++ input, seat.now.sent ++ output⟩ }

/-- The next conversation begins. -/
def again (seat : Seat G B Q J) : Seat G B Q J :=
  { seat with past := seat.past ++ [seat.now], now := Party.start }

theorem sent_again (seat : Seat G B Q J) : seat.again.sent = seat.sent := by
  simp [sent, again, Party.start]

end Seat

section Hall

variable {G : Type u} (S : G → Service B Q J E W)

/-- Conversations that are held side by side, in one world. -/
inductive Hall (w : W) : W → List (Seat G B Q J) → Prop where
  | empty : Hall w w []
  | join {w' : W} {seats : List (Seat G B Q J)} (h : Hall w w' seats) (key : G) :
      Hall w w' (seats ++ [{ key := key }])
  | again {w' : W} {seats : List (Seat G B Q J)} (h : Hall w w' seats) {i : Nat}
      {seat : Seat G B Q J} (hseat : seats[i]? = some seat) {part rest : List B}
      (hclosed : seat.now.state.phase = .closed part rest) : Hall w w' (seats.set i seat.again)
  | go {w' w'' : W} {seats : List (Seat G B Q J)} (h : Hall w w' seats) {i : Nat}
      {seat : Seat G B Q J} (hseat : seats[i]? = some seat) {input output : List B}
      {s : State B Q J}
      (hsteps : (S seat.key).Steps w' seat.now.state input output w'' s) :
      Hall w w'' (seats.set i (seat.go input output s))

/-- A conversation that is accounted for. -/
structure Regular (T : Service B Q J E W) (party : Party B Q J) : Prop where
  accounted : Service.Accounted party.state party.received party.sent
  sound : T.Sound party.state

theorem regular_start (T : Service B Q J E W) : Regular T Party.start :=
  ⟨Service.accounted_start, Service.sound_start⟩

variable {S}

/-- However the conversations go on, each of them is accounted for. -/
theorem Hall.regular {w w' : W} {seats : List (Seat G B Q J)} (h : Hall S w w' seats) :
    ∀ seat ∈ seats, ∀ party ∈ seat.past ++ [seat.now], Regular (S seat.key) party := by
  induction h with
  | empty => exact fun seat hseat => absurd hseat List.not_mem_nil
  | join _ key ih =>
      intro seat hseat party hparty
      rcases List.mem_append.mp hseat with hseat | hseat
      · exact ih seat hseat party hparty
      · obtain rfl := List.mem_singleton.mp hseat
        obtain rfl := List.mem_singleton.mp hparty
        exact regular_start _
  | @again _ _ _ _ old hold _ _ _ ih =>
      intro seat hseat party hparty
      rcases List.mem_or_eq_of_mem_set hseat with hseat | rfl
      · exact ih seat hseat party hparty
      · rcases List.mem_append.mp hparty with hparty | hparty
        · exact ih old (List.mem_of_getElem? hold) party hparty
        · obtain rfl := List.mem_singleton.mp hparty
          exact regular_start _
  | @go _ _ _ _ _ old hold _ _ _ hsteps ih =>
      intro seat hseat party hparty
      rcases List.mem_or_eq_of_mem_set hseat with hseat | rfl
      · exact ih seat hseat party hparty
      · have hmem := List.mem_of_getElem? hold
        rcases List.mem_append.mp hparty with hparty | hparty
        · exact ih old hmem party (List.mem_append_left _ hparty)
        · obtain rfl := List.mem_singleton.mp hparty
          obtain ⟨haccounted, hsound⟩ :=
            ih old hmem old.now (List.mem_append_right _ (List.mem_singleton_self _))
          exact ⟨hsteps.accounted haccounted, hsteps.sound hsound⟩

end Hall

end Conversation
