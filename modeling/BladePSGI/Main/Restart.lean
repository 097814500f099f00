import BladePSGI.Main.UnixSocket

/-!
# Starting again

Nothing removes the socket files when a server ends, so that the next one finds what its
predecessors left behind: the sockets of those that came up, of those that gave up halfway and of
those that still run. Here servers are started one after the other on one file system, each with its
own paths and its own kernel answers.

* `Touched`: what a server may have done to a file system, whatever its paths.
* `starts_spare`: what a history of servers leaves alone.
* `restarts`: a server that came up once comes up again, whatever has been started in between.
-/

namespace BladePSGI.Main

variable {Entry : Type*}

/-- The sockets of a server that has been started as the `n`th are no longer new ones. -/
def Socket.retire (n : ℕ) : Socket → Socket
  | fastcgi => old (2 * n)
  | stats => old (2 * n + 1)
  | old m => old m

/-- The same of what is in a directory entry. -/
def retireNode (n : ℕ) : Node Entry Socket → Node Entry Socket
  | .socket s => .socket (s.retire n)
  | node => node

/-- The file system that the next server finds. -/
def retire (n : ℕ) (fs : Files Entry) : InitialFiles Entry where
  lookup := fs.lookup
  node e := (fs.node e).map (retireNode n)
  not_fastcgi e h := by
    obtain ⟨node, -, heq⟩ := Option.map_eq_some_iff.1 h
    rcases node with (_ | _ | _) | _ | _ <;> cases heq
  not_stats e h := by
    obtain ⟨node, -, heq⟩ := Option.map_eq_some_iff.1 h
    rcases node with (_ | _ | _) | _ | _ <;> cases heq

/-- How a server is started: its two paths, and the answers of the kernel to each call. -/
structure Start where
  fastcgiSocketPath : SocketPath
  statsSocketPath : SocketPath
  kernel₁ : Kernel
  kernel₂ : Kernel

/-- The paths of a server. -/
def Start.paths (start : Start) : Set SocketPath :=
  {start.fastcgiSocketPath, start.statsSocketPath}

/-- The same server, with a kernel that refuses nothing. -/
def Start.granted (start : Start) : Start :=
  { start with kernel₁ := .grants, kernel₂ := .grants }

section

variable [DecidableEq Entry]

/-- The two calls of a server. -/
def Start.run (start : Start) (fs : Files Entry) :
    Files Entry × Except Exception (Socket × Socket) :=
  initializeSockets start.fastcgiSocketPath start.statsSocketPath start.kernel₁ start.kernel₂ fs

/-- The servers are started one after the other, whether they come up or not. -/
def starts (n : ℕ) (fs : InitialFiles Entry) : List Start → InitialFiles Entry
  | [] => fs
  | start :: more => starts (n + 1) (retire n (start.run fs.toFileSystem).1) more

end

/-! ## What a server does to the file system -/

/-- Nothing but an empty entry, a socket or a symbolic link is replaced, by a socket or by nothing,
and only where one of the cut paths is. -/
structure Touched (paths : Set SocketPath) (fs fs' : Files Entry) : Prop where
  lookup_eq : fs'.lookup = fs.lookup
  replaced : ∀ e, fs'.node e = fs.node e ∨
    (∃ path ∈ paths, fs.lookup path.sunPath = some e) ∧ fs.node e ≠ some .other ∧
      Plain (fs'.node e)
  socket_or_none : ∀ e, Plain (fs.node e) → Plain (fs'.node e)

variable {fs fs' fs'' : Files Entry} {paths paths' : Set SocketPath} {path path₁ path₂ : SocketPath}
  {e e₁ e₂ : Entry} {s : Socket} {r : Except Exception Socket} {n : ℕ}

theorem plain_map_retireNode {node : Option (Node Entry Socket)} :
    Plain (node.map (retireNode n)) ↔ Plain node := by
  rcases node with _ | (_ | _ | _) <;> simp [Plain, retireNode, Node.IsSocket]

namespace Touched

theorem refl (paths : Set SocketPath) (fs : Files Entry) : Touched paths fs fs where
  lookup_eq := rfl
  replaced _ := .inl rfl
  socket_or_none _ h := h

theorem mono (h : Touched paths fs fs') (hsub : paths ⊆ paths') : Touched paths' fs fs' where
  lookup_eq := h.lookup_eq
  replaced e := by
    rcases h.replaced e with heq | ⟨⟨path, hpath, hlookup⟩, hrest⟩
    · exact .inl heq
    · exact .inr ⟨⟨path, hsub hpath, hlookup⟩, hrest⟩
  socket_or_none := h.socket_or_none

theorem trans (h : Touched paths fs fs') (h' : Touched paths fs' fs'') : Touched paths fs fs'' where
  lookup_eq := h'.lookup_eq.trans h.lookup_eq
  replaced e := by
    rcases h'.replaced e with heq' | ⟨⟨path, hpath, hlookup⟩, hother, hplain⟩
    · rw [heq']
      exact h.replaced e
    rw [h.lookup_eq] at hlookup
    refine .inr ⟨⟨path, hpath, hlookup⟩, ?_, hplain⟩
    rcases h.replaced e with heq | ⟨-, hne, -⟩
    · rwa [← heq]
    · exact hne
  socket_or_none e hplain := h'.socket_or_none e (h.socket_or_none e hplain)

/-- The sockets that the server has made become old ones, and nothing else is other than before. -/
theorem retire {fs : InitialFiles Entry} (h : Touched paths fs.toFileSystem fs') (n : ℕ) :
    Touched paths fs.toFileSystem (retire n fs').toFileSystem where
  lookup_eq := h.lookup_eq
  replaced e := by
    rcases h.replaced e with heq | ⟨hpath, hne, hplain⟩
    · refine .inl ?_
      -- what has been there before is no new socket
      have hold : (fs.node e).map (retireNode n) = fs.node e := by
        rcases hnode : fs.node e with _ | (_ | _ | _) | _ | _
        · rfl
        · exact absurd hnode (fs.not_fastcgi e)
        · exact absurd hnode (fs.not_stats e)
        all_goals rfl
      rw [← hold, ← heq]
      rfl
    · exact .inr ⟨hpath, hne, plain_map_retireNode.2 hplain⟩
  socket_or_none e hplain := plain_map_retireNode.2 (h.socket_or_none e hplain)

variable [DecidableEq Entry]

/-- A usable entry gets a socket, or is cleared. -/
theorem set (hu : Usable fs path e) (hpath : path ∈ paths) {node : Option (Node Entry Socket)}
    (hnode : Plain node) : Touched paths fs (fs.set e node) where
  lookup_eq := rfl
  replaced e' := by
    by_cases heq : e' = e
    · subst heq
      refine .inr ⟨⟨path, hpath, hu.lookup⟩, fun hother => ?_, ?_⟩
      · obtain ⟨old, hstat⟩ := hu.node_ne_none hother
        rcases FileSystem.stat_eq_socket_cases hu.lookup hstat with hsocket | ⟨target, hlink⟩
        · rw [hother] at hsocket
          cases hsocket
        · rw [hother] at hlink
          cases hlink
      · rwa [FileSystem.set_node_self]
    · exact .inl (FileSystem.set_node_of_ne heq)
  socket_or_none e' hplain := by
    by_cases heq : e' = e
    · subst heq
      rwa [FileSystem.set_node_self]
    · rwa [FileSystem.set_node_of_ne heq]

end Touched

/-- A path leads to an entry with a socket or nothing in it. -/
def Ready (fs : Files Entry) (path : SocketPath) (e : Entry) : Prop :=
  fs.lookup path.sunPath = some e ∧ Plain (fs.node e)

theorem Ready.usable (h : Ready fs path e) : Usable fs path e where
  lookup := h.1
  free := by
    rcases hnode : fs.node e with _ | (old | _ | _)
    · exact .inl rfl
    · refine .inr ⟨old, ?_⟩
      rw [FileSystem.stat_eq h.1, FileSystem.follow, hnode]
    · exact (h.2 _ hnode).elim
    · exact (h.2 _ hnode).elim

theorem Ready.retire (h : Ready fs path e) (n : ℕ) : Ready (retire n fs).toFileSystem path e :=
  ⟨h.1, plain_map_retireNode.2 h.2⟩

/-- No server spoils a path for another. -/
theorem Ready.touched (h : Ready fs path e) (ht : Touched paths fs fs') : Ready fs' path e :=
  ⟨ht.lookup_eq ▸ h.1, ht.socket_or_none e h.2⟩

variable [DecidableEq Entry]

/-- **What a call of `InitializeUNIXSocket` does to the file system.** -/
theorem Initialized.touched (h : Initialized fs path s fs' r) (hpath : path ∈ paths) :
    Touched paths fs fs' := by
  cases h with
  | unchanged ex => exact .refl paths fs
  | removed hu ex => exact .set hu hpath plain_none
  | notListening hu ex => exact .set hu hpath (plain_socket s)
  | listening hu => exact .set hu hpath (plain_socket s)

/-- **What a server does to the file system.** -/
theorem touched_run (start : Start) (fs : Files Entry) :
    Touched start.paths fs (start.run fs).1 := by
  have h₁ : start.fastcgiSocketPath ∈ start.paths := .inl rfl
  have h₂ : start.statsSocketPath ∈ start.paths := .inr rfl
  rcases initializeSockets_cases (show start.run fs = (_, _) from rfl) with
    ⟨ex, -, hinit⟩ | ⟨e, r, hu, hinit, -⟩
  · exact hinit.touched h₁
  · exact (Touched.set hu h₁ (plain_socket _)).trans (hinit.touched h₂)

/-- **What a history of servers does to the file system.** -/
theorem starts_touched (n : ℕ) (fs : InitialFiles Entry) (history : List Start) :
    Touched {path | ∃ start ∈ history, path ∈ start.paths} fs.toFileSystem
      (starts n fs history).toFileSystem := by
  induction history generalizing n fs with
  | nil => exact .refl _ _
  | cons start more ih =>
    refine Touched.trans ?_ ((ih (n + 1) _).mono ?_)
    · refine ((touched_run start fs.toFileSystem).retire n).mono fun path hpath => ?_
      exact ⟨start, List.mem_cons_self, hpath⟩
    · rintro path ⟨other, hmem, hpath⟩
      exact ⟨other, List.mem_cons_of_mem _ hmem, hpath⟩

/-- **What a history of servers leaves alone**: files, directories and devices are never removed,
and nothing changes but at the cut paths of the servers, where a socket or nothing is left. -/
theorem starts_spare (n : ℕ) (fs : InitialFiles Entry) (history : List Start)
    (h : (starts n fs history).node e ≠ fs.node e) :
    (∃ start ∈ history, ∃ path ∈ start.paths, fs.lookup path.sunPath = some e) ∧
      fs.node e ≠ some .other ∧ Plain ((starts n fs history).node e) := by
  rcases (starts_touched n fs history).replaced e with heq | ⟨⟨path, hpath, hlookup⟩, hrest⟩
  · exact absurd heq h
  · obtain ⟨start, hmem, hpath⟩ := hpath
    exact ⟨⟨start, hmem, path, hpath, hlookup⟩, hrest⟩

/-! ## The next server with the same paths -/

theorem ready_set (hlookup : fs.lookup path.sunPath = some e) (s : Socket) :
    Ready (fs.set e (some (.socket s))) path e := by
  refine ⟨hlookup, ?_⟩
  rw [FileSystem.set_node_self]
  exact plain_socket s

/-- A server has come up: both paths lead to sockets. -/
theorem ready_of_run {start : Start} {sockfds : Socket × Socket}
    (h : start.run fs = (fs', .ok sockfds)) :
    ∃ e₁ e₂, Ready fs' start.fastcgiSocketPath e₁ ∧ Ready fs' start.statsSocketPath e₂ := by
  rcases initializeSockets_cases h with ⟨_, hex, -⟩ | ⟨e₁, r, hu₁, hinit, hr⟩
  · cases hex
  rcases hr with ⟨_, hex, -⟩ | ⟨-, rfl⟩
  · cases hex
  cases hinit with
  | @listening e₂ hu₂ =>
    have htouched := Touched.set hu₂ (Set.mem_univ _) (plain_socket .stats)
    exact ⟨e₁, e₂, (ready_set hu₁.lookup _).touched htouched, ready_set hu₂.lookup _⟩

/-- The server comes up at ready paths. -/
theorem run_of_ready {start : Start} (h₁ : Ready fs start.fastcgiSocketPath e₁)
    (h₂ : Ready fs start.statsSocketPath e₂) :
    start.granted.run fs = ((fs.set e₁ (some (.socket .fastcgi))).set e₂ (some (.socket .stats)),
      .ok (.fastcgi, .stats)) := by
  have h₂' : Ready (fs.set e₁ (some (.socket .fastcgi))) start.statsSocketPath e₂ :=
    h₂.touched (.set h₁.usable (Set.mem_univ _) (plain_socket _))
  rw [Start.run, Start.granted, initializeSockets_eq h₁.usable,
    initializeUNIXSocket_grants h₂'.usable]

/-- The server has come up, and nobody else's sockets are at its paths. -/
structure TakesOver (start : Start) (fs' : Files Entry)
    (result : Except Exception (Socket × Socket)) : Prop where
  ok : result = .ok (.fastcgi, .stats)
  stats : fs'.nodeAt start.statsSocketPath.sunPath = some (.socket .stats)
  fastcgi : fs'.nodeAt start.fastcgiSocketPath.sunPath = some (.socket .fastcgi) ∨
    fs'.lookup start.fastcgiSocketPath.sunPath = fs'.lookup start.statsSocketPath.sunPath

/-- **A server that came up once comes up again** with the same paths, whatever servers have been
started in between and whatever the kernel has refused to them, and it takes over both paths. -/
theorem restarts {fs : InitialFiles Entry} {start : Start} {sockfds : Socket × Socket}
    (h : (start.run fs.toFileSystem).2 = .ok sockfds) (n : ℕ) (history : List Start) :
    TakesOver start (start.granted.run (starts n fs (start :: history)).toFileSystem).1
      (start.granted.run (starts n fs (start :: history)).toFileSystem).2 := by
  obtain ⟨e₁, e₂, h₁, h₂⟩ := ready_of_run (Prod.ext rfl h)
  have htouched := starts_touched (n + 1) (retire n (start.run fs.toFileSystem).1) history
  have h₁ := (h₁.retire n).touched htouched
  have h₂ := (h₂.retire n).touched htouched
  rw [starts, run_of_ready h₁ h₂]
  refine ⟨rfl, ?_, ?_⟩
  · rw [FileSystem.nodeAt, FileSystem.set_lookup, FileSystem.set_lookup, h₂.1, Option.bind_some,
      FileSystem.set_node_self]
  · rw [FileSystem.nodeAt, FileSystem.set_lookup, FileSystem.set_lookup, h₁.1, h₂.1,
      Option.bind_some]
    by_cases heq : e₁ = e₂
    · exact .inr (congrArg some heq)
    · rw [FileSystem.set_node_of_ne heq, FileSystem.set_node_self]
      exact .inl rfl

/-- A server at two paths in an empty directory. -/
def Start.letters : Start := ⟨.letters 0, .letters 1, .grants, .grants⟩

/-- Another one is to use the same path for both sockets, and `bind` is refused to it. -/
def Start.intruder : Start := ⟨.letters 1, .letters 1, .grants, .refusesBind⟩

/-- What the first server leaves behind is one of its sockets. -/
theorem starts_spare_letters :
    InitialFiles.empty.node (SocketPath.letters 1).bytes ≠ some .other ∧
      Plain ((starts 0 InitialFiles.empty [.letters]).node (SocketPath.letters 1).bytes) :=
  (starts_spare 0 .empty [.letters] (by decide)).2

theorem restarts_intruder :
    TakesOver .letters
      (Start.letters.granted.run (starts 0 InitialFiles.empty [.letters, .intruder]).toFileSystem).1
      (Start.letters.granted.run
        (starts 0 InitialFiles.empty [.letters, .intruder]).toFileSystem).2 := by
  have h : (Start.letters.run InitialFiles.empty.toFileSystem).2 = .ok (.fastcgi, .stats) := by
    decide
  exact restarts h 0 [.intruder]

end BladePSGI.Main
