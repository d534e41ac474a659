import Webserv.ClientServer

/-!
# Rules for the methods

What a relation between states needs, so that a method of the connection
makes steps of it only. Each rule names the states a method sets, and
its callers look at those alone.
-/

namespace Webserv

open Bytes Program

namespace Connection

variable {W : Type} {os : OS W} {env : Env} {R : Connection W → Connection W → Prop}
  {P : Connection W → Prop}

/-! ## Dispatch -/

theorem makes_processCompletedRequest
    (hline : ∀ c p, c.client.parser = some p → R c (c.withParser (some p.setRequestLine)))
    (hcgi : ∀ p c, p.goesToCgi = true → R c (final (processCgiRequest os env p c)))
    (hcrash : ∀ (c : Connection W) p, R c (c.log c.moment (.dispatch p .crashed)))
    (hnormal : ∀ c p b world response, R c (c.normalAnswer p b world response)) :
    Makes R P (processCompletedRequest os env) := by
  refine Makes.get_bind fun c => ?_
  cases hp : c.client.parser with
  | none => exact .throw
  | some p =>
      refine .set_bind (hline c p hp) ?_
      split
      · rename_i htest
        exact .of_final fun s _ => hcgi _ s htest
      · refine Makes.get_bind fun s => ?_
        split
        · exact .set_bind (hcrash s _) .throw
        · exact .set (hnormal s _ _ _ _)

/-! ## Input -/

section Input

variable (hparsed : ∀ (c : Connection W) before p rest, R c (c.parsed before p rest))
  (hcompleted : ∀ P, Makes R P (processCompletedRequest os env))

include hparsed hcompleted

theorem makes_isParsingRequestBody : Makes R P (isParsingRequestBody os env) := by
  refine Makes.get_bind fun c => ?_
  split
  · exact .pure
  split
  · exact .pure
  refine Makes.get_bind fun c => ?_
  split
  · exact .throw
  · exact .pure
  · refine .set_bind (hparsed c _ _ _) ?_
    split
    · exact (hcompleted _).bind fun _ => .pure
    · exact .pure

theorem makes_processRequestHeaders (hclean : ∀ c : Connection W, R c (c.withParser none)) :
    Makes R P (processRequestHeaders os env) := by
  refine Makes.get_bind fun c => ?_
  split
  · exact .pure
  split
  · exact .throw
  · exact Makes.get_bind fun c' => .set (hclean c')
  · refine .set_bind (hparsed c _ _ _) ?_
    split
    · exact .pure
    · exact hcompleted _

end Input

/-! ## Output -/

theorem makes_checkCgiProgress
    (htimeout : ∀ c h p, c.client.parser = some p → R c (cgiTimedOut os env c h p))
    (hactive : ∀ c : Connection W, R c (c.active env)) :
    Makes R P (checkCgiProgress os env) := by
  refine Makes.get_bind fun c => ?_
  split
  · split
    · exact .throw
    · split
      · split
        · exact .throw
        · rename_i hp
          exact .set (htimeout c _ _ hp)
      · exact .set (hactive c)
  · exact .pure

section Response

variable (hterminated : ∀ c : Connection W, R c c.terminated)

include hterminated

theorem makes_terminate : Makes R P (terminate : Method W Unit) :=
  Makes.get_bind fun c => .set (hterminated c)

theorem makes_finalizeResponse (hfinalized : ∀ c : Connection W, R c c.builderDeleted)
    (hclean : ∀ c : Connection W, R c (c.withParser none)) :
    Makes R P (finalizeResponse : Method W Unit) := by
  refine Makes.get_bind fun c => .set_bind (hfinalized c) ?_
  split
  · exact makes_terminate hterminated
  split
  · exact Makes.get_bind fun c' => .set (hclean c')
  · exact .pure

theorem makes_handleResponse (hsent : ∀ (c : Connection W) n, R c (c.chunkSent env n))
    (hfinalized : ∀ c : Connection W, R c c.builderDeleted)
    (hclean : ∀ c : Connection W, R c (c.withParser none)) (sent : Sent) :
    Makes R P (handleResponse env sent : Method W Unit) := by
  refine Makes.get_bind fun c => ?_
  split
  · exact .pure
  split
  · exact makes_terminate hterminated
  have hchunk : Makes R (fun t => t = c) (sendResponseChunk env sent : Method W Bool) := by
    cases sent with
    | none => exact (makes_terminate hterminated).bind fun _ => .pure
    | some n => exact Makes.get_bind fun s => .set_bind (hsent s _) .pure
  refine hchunk.bind fun ok => Makes.get_bind fun c' => ?_
  split
  · exact makes_finalizeResponse hterminated hfinalized hclean
  · exact .pure

end Response

/-! ## The states behind a response -/

/-- The end of a response. -/
def finalized (c : Connection W) : Connection W :=
  if !shouldKeepAlive c.client then c.builderDeleted.terminated
  else if c.client.parser.any (fun p => p.errorCode ≠ 0) then c.builderDeleted.withParser none
  else c.builderDeleted

theorem finalizeResponse_eq (c : Connection W) : finalizeResponse c = .ok () (finalized c) := by
  show (finalizeResponse : Method W Unit).run c = _
  simp only [finalizeResponse, finalized, EStateM.run_bind, EStateM.run_get, EStateM.run_set]
  split
  · rfl
  split
  · rfl
  · rfl

/-- What `handleResponse` does. -/
inductive Responds (env : Env) (c : Connection W) : Connection W → Prop where
  | idle : Responds env c c
  | dropped (hne : c.client.responseBuffer ≠ []) : Responds env c c.terminated
  | part (n : Nat) (hleft : c.client.responseBuffer.drop n ≠ []) :
      Responds env c (c.chunkSent env n)
  | last (n : Nat) (hne : c.client.responseBuffer ≠ [])
      (hdone : c.client.responseBuffer.drop n = []) :
      Responds env c (finalized (c.chunkSent env n))

theorem handleResponse_responds (env : Env) (sent : Sent) (c : Connection W) :
    ∃ c', handleResponse env sent c = .ok () c' ∧ Responds env c c'
      ∧ (c' = c ∨ c.client.responseReady = true) := by
  have hterminate : (terminate : Method W Unit).run c = .ok () c.terminated := rfl
  show ∃ c', (handleResponse env sent).run c = .ok () c' ∧ Responds env c c'
    ∧ (c' = c ∨ c.client.responseReady = true)
  simp only [handleResponse, EStateM.run_bind, EStateM.run_get]
  split
  · exact ⟨c, rfl, .idle, .inl rfl⟩
  rename_i hpending
  obtain ⟨hready, hne⟩ : c.client.responseReady = true ∧ c.client.responseBuffer ≠ [] := by
    simpa using hpending
  split
  · exact ⟨_, hterminate, .dropped hne, .inr hready⟩
  cases sent with
  | none =>
      refine ⟨c.terminated, ?_, .dropped hne, .inr hready⟩
      simp only [sendResponse, sendResponseChunk, EStateM.run_bind, EStateM.run_get, hterminate,
        EStateM.run_pure, Bool.false_and]
      rfl
  | some n =>
      have hchunk : (sendResponseChunk env (some n)).run c = .ok true (c.chunkSent env n) := rfl
      simp only [sendResponse, EStateM.run_bind, EStateM.run_get, hchunk, Bool.true_and,
        decide_eq_true_eq]
      split
      · rename_i hdone
        exact ⟨_, finalizeResponse_eq _, .last n hne hdone, .inr hready⟩
      · rename_i hleft
        exact ⟨_, rfl, .part n hleft, .inr hready⟩

/-! ## The pipe of a CGI handler -/

section Pipe

variable {h : Nat}

theorem makes_terminateCgi (hstopped : ∀ (c : Connection W) handler,
      c.handlers.get? h = some handler →
        R c (c.withHandler h { handler.closed with bodyFd := false })) :
    Makes R P (terminateCgi h : Method W Unit) := by
  refine Makes.get_bind fun c => ?_
  split
  · exact .throw
  · rename_i hlive
    split
    · exact .set (hstopped c _ hlive)
    · exact .pure

variable (hcompleted : ∀ (c : Connection W) i b, c.client.pendingCgi = some h →
    c.client.responseBuilder = some i → c.builders.get? i = some b → R c (c.cgiCompleted env h i b))
  (hclosed : ∀ (c : Connection W) handler b, c.handlers.get? h = some handler →
    c.builders.get? handler.responseBuilder = some b → R c (c.cgiClosed h handler b))

include hcompleted

theorem makes_onCgiComplete : Makes R P (onCgiComplete env h : Method W Unit) := by
  refine Makes.get_bind fun c => ?_
  split
  · rename_i hpending
    split
    · exact .throw
    · rename_i hi
      split
      · exact .throw
      · rename_i hb
        exact .set (hcompleted c _ _ hpending hi hb)
  · exact .pure

include hclosed

theorem makes_finalizeCgi : Makes R P (finalizeCgi env h : Method W Unit) := by
  refine Makes.get_bind fun c => ?_
  split
  · exact .throw
  · rename_i hlive
    split
    · exact .throw
    · rename_i hb
      exact .set_bind (hclosed c _ _ hlive hb) (makes_onCgiComplete hcompleted)

theorem makes_onPipeEvent (hhandler : ∀ (c : Connection W) handler handler',
      c.handlers.get? h = some handler → R c (c.withHandler h handler')) (ev : PipeEvent) :
    Makes R P (onPipeEvent env h ev : Method W Unit) := by
  have hinput : Makes R P (onPipeInput env h ev.input : Method W Unit) := by
    cases ev.input with
    | none => exact .pure
    | some bytes =>
        refine Makes.get_bind fun c => ?_
        split
        · exact .throw
        · rename_i hlive
          split
          · exact .set (hhandler c _ _ hlive)
          · exact makes_finalizeCgi hcompleted hclosed
  refine hinput.bind fun _ => Makes.bind ?_ fun _ => ?_
  · split
    · exact makes_finalizeCgi hcompleted hclosed
    · exact .pure
  · split
    · exact makes_terminateCgi fun c handler hlive => hhandler c handler _ hlive
    · exact .pure

end Pipe

end Connection

end Webserv
