import Webserv.OrdMap

/-!
# The table of listeners

`IOMultiplexer` as `srcs/Server/IOMultiplexer.cpp` has it, over any type
of listeners: `_listeners`, and the descriptors that epoll watches.

Left out: the log, the events that are asked for, and the shutdown.
-/

namespace Webserv

structure IoMultiplexer (L : Type) where
  listeners : OrdMap Nat L := OrdMap.empty
  /-- the interest list of `_epoll_fd` -/
  epoll : List Nat := []

namespace IoMultiplexer

variable {L : Type}

/-- `addListener`; `ctlOk` is whether `epoll_ctl` succeeds, and the second
component whether the call returns. -/
def addListener (io : IoMultiplexer L) (listener : L) (fd : Nat) (ctlOk : Bool) :
    IoMultiplexer L × Bool :=
  if io.listeners.contains fd then (io, false)
  else
    ({ listeners := io.listeners.insert fd listener
       epoll := if ctlOk then fd :: io.epoll else io.epoll }, ctlOk)

/-- `removeListener` and the `close` of the descriptor behind it, which
takes it out of epoll whatever `epoll_ctl` has done. -/
def closeListener (io : IoMultiplexer L) (fd : Nat) : IoMultiplexer L where
  listeners := io.listeners.erase fd
  epoll := io.epoll.filter (· ≠ fd)

/-- `closeListener` for every descriptor whose entry satisfies `p`. -/
def closeAll (io : IoMultiplexer L) (p : Nat → L → Bool) : IoMultiplexer L :=
  (io.listeners.entries.filter fun e => p e.1 e.2).foldl (fun io e => io.closeListener e.1) io

/-! ## What is watched -/

/-- `fd` is watched, for `listener`. -/
structure Watches (io : IoMultiplexer L) (fd : Nat) (listener : L) : Prop where
  watched : fd ∈ io.epoll
  listener : io.listeners.get? fd = some listener

/-- Every descriptor that is watched has a listener. -/
def Mirrored (io : IoMultiplexer L) : Prop := ∀ fd ∈ io.epoll, ∃ listener, io.Watches fd listener

section Add

variable {io : IoMultiplexer L} {l l' : L} {fd fd' : Nat} {ctlOk : Bool}

theorem addListener_of_contains (h : io.listeners.contains fd = true) :
    io.addListener l fd ctlOk = (io, false) :=
  if_pos h

theorem addListener_of_not_contains (h : ¬io.listeners.contains fd = true) :
    io.addListener l fd ctlOk
      = ({ listeners := io.listeners.insert fd l
           epoll := if ctlOk then fd :: io.epoll else io.epoll }, ctlOk) :=
  if_neg h

/-- What was watched still is: a descriptor in use is refused. -/
theorem Watches.addListener (h : io.Watches fd l) (l' : L) (ctlOk : Bool) :
    (io.addListener l' fd' ctlOk).1.Watches fd l := by
  by_cases hc : io.listeners.contains fd' = true
  · rw [addListener_of_contains hc]
    exact h
  rw [addListener_of_not_contains hc]
  have hne : fd' ≠ fd := by
    rintro rfl
    exact hc (by rw [OrdMap.contains, h.listener]; rfl)
  refine ⟨?_, (OrdMap.get?_insert_of_ne _ hne l').trans h.listener⟩
  show fd ∈ if ctlOk then fd' :: io.epoll else io.epoll
  split
  · exact List.mem_cons_of_mem _ h.watched
  · exact h.watched

/-- Only the new listener is watched besides, and only if the call
returned. -/
theorem watches_addListener (hfresh : fd ∉ io.epoll)
    (h : (io.addListener l fd ctlOk).1.Watches fd' l') :
    io.Watches fd' l' ∨ fd' = fd ∧ l' = l ∧ (io.addListener l fd ctlOk).2 = true := by
  by_cases hc : io.listeners.contains fd = true
  · rw [addListener_of_contains hc] at h
    exact Or.inl h
  rw [addListener_of_not_contains hc] at h ⊢
  obtain ⟨hwatched, hlistener⟩ := h
  have hwatched : fd' ∈ if ctlOk then fd :: io.epoll else io.epoll := hwatched
  by_cases heq : fd' = fd
  · subst heq
    have hself := OrdMap.get?_insert_self io.listeners fd' l
    refine Or.inr ⟨rfl, Option.some.inj (hlistener.symm.trans hself), ?_⟩
    by_contra hok
    rw [if_neg hok] at hwatched
    exact hfresh hwatched
  · refine Or.inl ⟨?_, (OrdMap.get?_insert_of_ne _ (Ne.symm heq) l).symm.trans hlistener⟩
    split at hwatched
    · exact (List.mem_cons.mp hwatched).resolve_left heq
    · exact hwatched

theorem Mirrored.addListener (h : io.Mirrored) (l : L) (fd : Nat) (ctlOk : Bool) :
    (io.addListener l fd ctlOk).1.Mirrored := by
  intro fd' hfd'
  by_cases hold : fd' ∈ io.epoll
  · obtain ⟨l', hl'⟩ := h fd' hold
    exact ⟨l', hl'.addListener l ctlOk⟩
  by_cases hc : io.listeners.contains fd = true
  · rw [addListener_of_contains hc] at hfd'
    exact absurd hfd' hold
  · rw [addListener_of_not_contains hc] at hfd' ⊢
    have hmem : fd' ∈ if ctlOk then fd :: io.epoll else io.epoll := hfd'
    refine ⟨l, hfd', ?_⟩
    split at hmem
    · obtain rfl := (List.mem_cons.mp hmem).resolve_right hold
      exact OrdMap.get?_insert_self _ _ _
    · exact absurd hmem hold

end Add

section Close

variable {io : IoMultiplexer L} {l : L} {fd : Nat}

theorem watches_closeListener {fd' : Nat} :
    (io.closeListener fd').Watches fd l ↔ io.Watches fd l ∧ fd ≠ fd' := by
  constructor
  · rintro ⟨hwatched, hlistener⟩
    obtain ⟨hwatched, hne⟩ := List.mem_filter.mp hwatched
    have hne : fd ≠ fd' := by simpa using hne
    refine ⟨⟨hwatched, ?_⟩, hne⟩
    exact ((OrdMap.get?_erase _ _ _).trans (if_neg hne.symm)).symm.trans hlistener
  · rintro ⟨⟨hwatched, hlistener⟩, hne⟩
    refine ⟨List.mem_filter.mpr ⟨hwatched, by simpa using hne⟩, ?_⟩
    exact ((OrdMap.get?_erase _ _ _).trans (if_neg hne.symm)).trans hlistener

theorem watches_closeListeners : ∀ {es : List (Nat × L)} {io : IoMultiplexer L},
    (es.foldl (fun io e => io.closeListener e.1) io).Watches fd l
      ↔ io.Watches fd l ∧ ∀ e ∈ es, fd ≠ e.1
  | [], io => by simp
  | e :: es, io => by
      rw [List.foldl_cons, watches_closeListeners, watches_closeListener, and_assoc,
        List.forall_mem_cons]

theorem watches_closeAll {p : Nat → L → Bool} :
    (io.closeAll p).Watches fd l ↔ io.Watches fd l ∧ p fd l = false := by
  rw [closeAll, watches_closeListeners]
  refine and_congr_right fun h => ?_
  constructor
  · intro hne
    by_contra hp
    have hmem : (fd, l) ∈ io.listeners.entries.filter fun e => p e.1 e.2 :=
      List.mem_filter.mpr ⟨OrdMap.mem_entries.mpr h.listener, by simpa using hp⟩
    exact hne (fd, l) hmem rfl
  · rintro hp ⟨fd', l'⟩ hmem rfl
    obtain ⟨hmem, hp'⟩ := List.mem_filter.mp hmem
    have hl : some l = some l' := h.listener.symm.trans (OrdMap.mem_entries.mp hmem)
    obtain rfl := Option.some.inj hl
    exact absurd (hp.symm.trans hp') (by decide)

theorem Mirrored.closeListener (h : io.Mirrored) (fd : Nat) : (io.closeListener fd).Mirrored := by
  intro fd' hfd'
  obtain ⟨hmem, hne⟩ := List.mem_filter.mp hfd'
  obtain ⟨l, hl⟩ := h fd' hmem
  exact ⟨l, watches_closeListener.mpr ⟨hl, by simpa using hne⟩⟩

theorem Mirrored.closeListeners : ∀ {es : List (Nat × L)} {io : IoMultiplexer L},
    io.Mirrored → (es.foldl (fun io e => io.closeListener e.1) io).Mirrored
  | [], _, h => h
  | e :: _, _, h => (h.closeListener e.1).closeListeners

theorem Mirrored.closeAll (h : io.Mirrored) (p : Nat → L → Bool) : (io.closeAll p).Mirrored :=
  h.closeListeners

end Close

end IoMultiplexer

end Webserv
