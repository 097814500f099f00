import BladePSGI.Foundations.FileSystem
import BladePSGI.Main.Arguments

/-!
# Where the sockets listen

`InitializeMainFastCGISocket` and `InitializeStatsSocket`: an old socket at the path is removed and
a new one is bound to it. The path is copied into `sun_path`, which has room for 107 bytes, and what
does not fit is cut off without a word. `stat`, `unlink` and `bind` work on what is left.

* `initializeUNIXSocket_cases`: what one call can do to the file system.
* `startup_initializeUNIXSocket`: its results are the ones that the startup goes on with.
* `listensWhereAsked_iff`: the pairs of paths for which the two calls are right, whatever the
  kernel refuses.
-/

namespace BladePSGI.Main

/-- A path of the command line. -/
@[ext] structure SocketPath where
  bytes : List Byte
  bytes_ne_nil : bytes ≠ []
  nul_notMem : 0#8 ∉ bytes

instance : DecidableEq SocketPath := fun p q =>
  decidable_of_iff (p.bytes = q.bytes) SocketPath.ext_iff.symm

/-- The path in `sun_path`: `snprintf` into 108 bytes, the last one a NUL. -/
def SocketPath.sunPath (p : SocketPath) : SocketPath where
  bytes := p.bytes.take 107
  bytes_ne_nil := by simpa using p.bytes_ne_nil
  nul_notMem h := p.nul_notMem (List.mem_of_mem_take h)

/-- The path in a message. -/
def SocketPath.text (p : SocketPath) : String := pathText p.bytes

/-- The sockets of the file system. -/
inductive Socket
  | fastcgi
  | stats
  | old (n : ℕ)
  deriving DecidableEq

/-- The file system that the sockets are made in. -/
abbrev Files (Entry : Type*) := FileSystem SocketPath Entry Socket

/-- What the kernel answers to a call: whether it refuses the call for another reason than the state
of the file system, and the text for `errno` if the call fails. -/
structure Answer where
  refused : Bool
  strerror : String

/-- The result of a call that the kernel need not allow. -/
def Answer.grant {α : Type*} (a : Answer) (result : Option α) : Option α :=
  if a.refused then none else result

/-- The answers to the calls of `InitializeUNIXSocket`. -/
structure Kernel where
  socket : Answer
  /-- `stat` fails although it could tell. -/
  statFails : Bool
  unlink : Answer
  bind : Answer
  listen : Answer

variable {Entry : Type*}

section

variable [DecidableEq Entry]

/-- Remove the old socket. -/
def removeSocketFile (sunPath : SocketPath) (kernel : Kernel)
    (fs : Files Entry) :
    Except Exception (Files Entry) :=
  if kernel.statFails then .ok fs
  else
    match fs.stat sunPath with
    | none => .ok fs
    | some (.socket _) =>
      match kernel.unlink.grant (fs.unlink sunPath) with
      | none => .error (.runtime
          ("could not remove socket file " ++ sunPath.text ++ ": " ++ kernel.unlink.strerror))
      | some fs => .ok fs
    | some _ => .error (.runtime
        ("file " ++ sunPath.text ++ " already exists and is not a socket"))

/-- `InitializeUNIXSocket`, with the socket that `socket` makes. -/
def initializeUNIXSocket (path : SocketPath) (sockfd : Socket) (kernel : Kernel)
    (fs : Files Entry) :
    Files Entry × Except Exception Socket :=
  if kernel.socket.refused then (fs, .error (.syscall "socket" kernel.socket.strerror))
  else
    match removeSocketFile path.sunPath kernel fs with
    | .error ex => (fs, .error ex)
    | .ok fs =>
      match kernel.bind.grant (fs.bind path.sunPath sockfd) with
      | none => (fs, .error (.syscall "bind" kernel.bind.strerror))
      | some fs =>
        if kernel.listen.refused then (fs, .error (.syscall "listen" kernel.listen.strerror))
        else (fs, .ok sockfd)

/-- `InitializeMainFastCGISocket` and `InitializeStatsSocket`, one after the other, with
`fastcgi_sockfd_` and `stats_sockfd_`. -/
def initializeSockets (fastcgiSocketPath statsSocketPath : SocketPath) (kernel₁ kernel₂ : Kernel)
    (fs : Files Entry) :
    Files Entry × Except Exception (Socket × Socket) :=
  match initializeUNIXSocket fastcgiSocketPath .fastcgi kernel₁ fs with
  | (fs, .error ex) => (fs, .error ex)
  | (fs, .ok fastcgiSockfd) =>
    match initializeUNIXSocket statsSocketPath .stats kernel₂ fs with
    | (fs, .error ex) => (fs, .error ex)
    | (fs, .ok statsSockfd) => (fs, .ok (fastcgiSockfd, statsSockfd))

end

/-! ## One call -/

variable {fs fs' : Files Entry} {path : SocketPath} {e : Entry} {s : Socket} {kernel : Kernel}
  {r : Except Exception Socket}

/-- A socket can be bound at the entry, after `stat` and `unlink`. -/
structure Usable (fs : Files Entry) (path : SocketPath) (e : Entry) :
    Prop where
  lookup : fs.lookup path.sunPath = some e
  free : fs.node e = none ∨ ∃ old, fs.stat path.sunPath = some (.socket old)

/-- There is no such directory, or something is in the way that `stat` does not take for a
socket. -/
def Refused (fs : Files Entry) (path : SocketPath) : Prop :=
  ∀ e, fs.lookup path.sunPath = some e →
    fs.node e ≠ none ∧ ∀ old, fs.stat path.sunPath ≠ some (.socket old)

/-- The entry is the one that the path names. -/
theorem Usable.eq {e' : Entry} (h : Usable fs path e) (he' : fs.lookup path.sunPath = some e') :
    e = e' :=
  Option.some.inj (h.lookup.symm.trans he')

theorem Usable.node_ne_none (h : Usable fs path e) {n : Node Entry Socket}
    (hnode : fs.node e = some n) : ∃ old, fs.stat path.sunPath = some (.socket old) := by
  rcases h.free with hnone | hstat
  · rw [hnode] at hnone
    cases hnone
  · exact hstat

theorem refused_or_usable (fs : Files Entry) (path : SocketPath) :
    Refused fs path ∨ ∃ e, Usable fs path e := by
  by_cases h : ∃ e, Usable fs path e
  · exact .inr h
  · refine .inl fun e he => ⟨fun hnone => h ⟨e, he, .inl hnone⟩, fun old hstat => ?_⟩
    exact h ⟨e, he, .inr ⟨old, hstat⟩⟩

theorem not_usable_of_refused (h : Refused fs path) : ¬ Usable fs path e := by
  intro he
  obtain ⟨hnode, hstat⟩ := h e he.lookup
  rcases he.free with hnone | ⟨old, hold⟩
  · exact hnode hnone
  · exact hstat old hold

/-- A directory entry without anything, or with a socket. -/
def Plain (node : Option (Node Entry Socket)) : Prop := ∀ n, node = some n → n.IsSocket

/-- Nothing but sockets has been removed or created, and only at the two paths. -/
def Clean (fs fs' : Files Entry) (path₁ path₂ : SocketPath) : Prop :=
  ∀ e, fs'.node e ≠ fs.node e →
    (fs.lookup path₁ = some e ∨ fs.lookup path₂ = some e) ∧ Plain (fs.node e) ∧ Plain (fs'.node e)

theorem plain_none : Plain (none : Option (Node Entry Socket)) := by
  rintro n ⟨⟩

theorem plain_socket (s : Socket) : Plain (some (.socket s) : Option (Node Entry Socket)) := by
  rintro n ⟨⟩
  trivial

theorem Usable.plain (h : Usable fs path e) (hlink : ∀ target, fs.node e ≠ some (.link target)) :
    Plain (fs.node e) := by
  rcases h.free with hnone | ⟨old, hold⟩
  · exact hnone ▸ plain_none
  · rcases FileSystem.stat_eq_socket_cases h.lookup hold with hsocket | ⟨target, htarget⟩
    · exact hsocket ▸ plain_socket old
    · exact absurd htarget (hlink target)

theorem clean_refl {path₁ path₂ : SocketPath} : Clean fs fs path₁ path₂ := fun _ h => absurd rfl h

variable [DecidableEq Entry]

/-- What a call of `InitializeUNIXSocket` can do. -/
inductive Initialized (fs : Files Entry) (path : SocketPath) (s : Socket) :
    Files Entry → Except Exception Socket → Prop
  | unchanged (ex) : Initialized fs path s fs (.error ex)
  | removed {e : Entry} (h : Usable fs path e) (ex) :
      Initialized fs path s (fs.set e none) (.error ex)
  | notListening {e : Entry} (h : Usable fs path e) (ex) :
      Initialized fs path s (fs.set e (some (.socket s))) (.error ex)
  | listening {e : Entry} (h : Usable fs path e) :
      Initialized fs path s (fs.set e (some (.socket s))) (.ok s)

theorem removeSocketFile_cases (h : removeSocketFile path.sunPath kernel fs = .ok fs') :
    fs' = fs ∨ ∃ e, Usable fs path e ∧ fs' = fs.set e none := by
  unfold removeSocketFile at h
  split_ifs at h
  · exact .inl (Except.ok.inj h).symm
  split at h
  · exact .inl (Except.ok.inj h).symm
  · rename_i old hstat
    split at h
    · cases h
    · rename_i fs₁ hgrant
      obtain rfl := Except.ok.inj h
      unfold Answer.grant at hgrant
      split_ifs at hgrant
      cases hlookup : fs.lookup path.sunPath with
      | none => simp [FileSystem.unlink, hlookup] at hgrant
      | some e =>
        rw [FileSystem.unlink_eq hlookup (FileSystem.node_ne_none_of_stat hlookup hstat)] at hgrant
        exact .inr ⟨e, ⟨hlookup, .inr ⟨old, hstat⟩⟩, (Option.some.inj hgrant).symm⟩
  · cases h

theorem bind_cases {fs₁ : Files Entry} (h : fs.bind path.sunPath s = some fs₁) :
    ∃ e, fs.lookup path.sunPath = some e ∧ fs.node e = none ∧
      fs₁ = fs.set e (some (.socket s)) := by
  unfold FileSystem.bind at h
  split at h
  · cases h
  · rename_i e hlookup
    split_ifs at h with hnode
    exact ⟨e, hlookup, Option.isNone_iff_eq_none.1 hnode, (Option.some.inj h).symm⟩

/-- **What a call of `InitializeUNIXSocket` can do.** -/
theorem initializeUNIXSocket_cases
    (h : initializeUNIXSocket path s kernel fs = (fs', r)) : Initialized fs path s fs' r := by
  unfold initializeUNIXSocket at h
  split at h
  · obtain ⟨rfl, rfl⟩ := Prod.mk.inj h
    exact .unchanged _
  cases hremove : removeSocketFile path.sunPath kernel fs with
  | error ex =>
    rw [hremove] at h
    obtain ⟨rfl, rfl⟩ := Prod.mk.inj h
    exact .unchanged _
  | ok fs₁ =>
    simp only [hremove] at h
    cases hbind : kernel.bind.grant (fs₁.bind path.sunPath s) with
    | none =>
      rw [hbind] at h
      obtain ⟨rfl, rfl⟩ := Prod.mk.inj h
      rcases removeSocketFile_cases hremove with rfl | ⟨e, he, rfl⟩
      · exact .unchanged _
      · exact .removed he _
    | some fs₂ =>
      simp only [hbind] at h
      have hbound : ∃ e, Usable fs path e ∧ fs₂ = fs.set e (some (.socket s)) := by
        unfold Answer.grant at hbind
        split_ifs at hbind
        obtain ⟨e, hlookup, hnode, rfl⟩ := bind_cases hbind
        rcases removeSocketFile_cases hremove with rfl | ⟨e', he', rfl⟩
        · exact ⟨e, ⟨hlookup, .inl hnode⟩, rfl⟩
        · obtain rfl := he'.eq hlookup
          exact ⟨e', he', FileSystem.set_set⟩
      obtain ⟨e, he, rfl⟩ := hbound
      split_ifs at h <;> obtain ⟨rfl, rfl⟩ := Prod.mk.inj h
      · exact .notListening he _
      · exact .listening he

/-! ## What the kernel may answer -/

def Answer.yes : Answer := ⟨false, ""⟩

def Answer.no : Answer := ⟨true, "Operation not permitted"⟩

/-- Nothing is refused. -/
def Kernel.grants : Kernel := ⟨.yes, false, .yes, .yes, .yes⟩

/-- There is no socket left. -/
def Kernel.refusesSocket : Kernel := { Kernel.grants with socket := .no }

/-- `bind` is refused. -/
def Kernel.refusesBind : Kernel := { Kernel.grants with bind := .no }

theorem removeSocketFile_of_usable (h : Usable fs path e) (hfails : kernel.statFails = false)
    (hunlink : kernel.unlink = .yes) :
    removeSocketFile path.sunPath kernel fs =
      .ok (if (fs.node e).isSome then fs.set e none else fs) := by
  rw [removeSocketFile, hfails, hunlink, if_neg (by simp)]
  cases hnode : fs.node e with
  | none =>
    have hstat : fs.stat path.sunPath = none := by
      rw [FileSystem.stat_eq h.lookup, FileSystem.follow, hnode]
    rw [hstat]
    rfl
  | some n =>
    obtain ⟨old, hstat⟩ := h.node_ne_none hnode
    rw [hstat]
    simp [Answer.grant, Answer.yes, FileSystem.unlink_eq h.lookup (by rw [hnode]; simp)]

theorem initializeUNIXSocket_grants (h : Usable fs path e) :
    initializeUNIXSocket path s .grants fs = (fs.set e (some (.socket s)), .ok s) := by
  rw [initializeUNIXSocket, removeSocketFile_of_usable h rfl rfl]
  cases hnode : fs.node e with
  | none =>
    simp [Kernel.grants, Answer.yes, Answer.grant, FileSystem.bind_eq h.lookup hnode]
  | some n =>
    have hlookup : (fs.set e none).lookup path.sunPath = some e := h.lookup
    have hbind : (fs.set e none).bind path.sunPath s = some (fs.set e (some (.socket s))) := by
      rw [FileSystem.bind_eq hlookup FileSystem.set_node_self, FileSystem.set_set]
    simp [Kernel.grants, Answer.yes, Answer.grant, hbind]

theorem initializeUNIXSocket_refusesBind (h : Usable fs path e) (hnode : fs.node e ≠ none) :
    initializeUNIXSocket path s .refusesBind fs =
      (fs.set e none, .error (.syscall "bind" "Operation not permitted")) := by
  rw [initializeUNIXSocket, removeSocketFile_of_usable h rfl rfl,
    if_pos (Option.isSome_iff_ne_none.2 hnode)]
  rfl

/-! ## Both calls -/

/-- The file system at startup: the two new sockets are not in it. -/
structure InitialFiles (Entry : Type*) extends FileSystem SocketPath Entry Socket where
  not_fastcgi : ∀ e, node e ≠ some (.socket .fastcgi)
  not_stats : ∀ e, node e ≠ some (.socket .stats)

/-- **The sockets listen where they should**, whatever the kernel refuses. -/
structure ListensWhereAsked (fs : InitialFiles Entry) (path₁ path₂ : SocketPath) : Prop where
  returned : ∀ kernel₁ kernel₂ fs' fastcgiSockfd statsSockfd,
    initializeSockets path₁ path₂ kernel₁ kernel₂ fs.toFileSystem =
      (fs', .ok (fastcgiSockfd, statsSockfd)) →
    fs'.nodeAt path₁ = some (.socket fastcgiSockfd) ∧
      fs'.nodeAt path₂ = some (.socket statsSockfd) ∧
      ∀ e, fs.lookup path₁ ≠ some e → fs.lookup path₂ ≠ some e → fs'.node e = fs.node e
  thrown : ∀ kernel₁ kernel₂ fs' ex,
    initializeSockets path₁ path₂ kernel₁ kernel₂ fs.toFileSystem = (fs', .error ex) →
      Clean fs.toFileSystem fs' path₁ path₂

/-- What is cut off does not matter: the path names the entry that the code works on, which is no
symbolic link. -/
structure Named (fs : Files Entry) (path : SocketPath) (e : Entry) : Prop where
  lookup_sunPath : fs.lookup path.sunPath = some e
  lookup : fs.lookup path = some e
  not_link : ∀ target, fs.node e ≠ some (.link target)

/-- The paths for which the two calls are right. -/
inductive Unambiguous (fs : Files Entry) (path₁ path₂ : SocketPath) : Prop
  /-- The first call fails. -/
  | firstRefused (h : Refused fs path₁)
  /-- The first call makes its socket at one of the two paths, and the second call fails. -/
  | secondRefused {e : Entry} (h₁ : fs.lookup path₁.sunPath = some e)
      (hnamed : fs.lookup path₁ = some e ∨ fs.lookup path₂ = some e)
      (hlink : ∀ target, fs.node e ≠ some (.link target))
      (h₂ : Refused (fs.set e (some (.socket .fastcgi))) path₂)
  /-- The two paths name different entries. -/
  | different {e₁ e₂ : Entry} (h₁ : Named fs path₁ e₁) (h₂ : Named fs path₂ e₂) (hne : e₁ ≠ e₂)

variable {path₁ path₂ : SocketPath} {e₁ e₂ : Entry} {kernel₁ kernel₂ : Kernel}

theorem Clean.set {node : Option (Node Entry Socket)} (h : Clean fs fs' path₁ path₂)
    (he : fs.lookup path₁ = some e ∨ fs.lookup path₂ = some e) (hplain : Plain (fs.node e))
    (hnode : Plain node) : Clean fs (fs'.set e node) path₁ path₂ := by
  intro e' hne
  rcases eq_or_ne e' e with rfl | hne'
  · exact ⟨he, hplain, by rwa [FileSystem.set_node_self]⟩
  · rw [FileSystem.set_node_of_ne hne'] at hne ⊢
    exact h e' hne

/-- Whatever a call does that throws, or returns, at one of the paths. -/
theorem Initialized.clean {fs₀ : Files Entry} (h : Initialized fs path s fs' r)
    (hclean : Clean fs₀ fs path₁ path₂)
    (he : ∀ e, Usable fs path e → (fs₀.lookup path₁ = some e ∨ fs₀.lookup path₂ = some e) ∧
      Plain (fs₀.node e)) : Clean fs₀ fs' path₁ path₂ := by
  cases h with
  | unchanged ex => exact hclean
  | removed hu ex => exact hclean.set (he _ hu).1 (he _ hu).2 plain_none
  | notListening hu ex => exact hclean.set (he _ hu).1 (he _ hu).2 (plain_socket s)
  | listening hu => exact hclean.set (he _ hu).1 (he _ hu).2 (plain_socket s)

/-- The two calls, one after the other. -/
theorem initializeSockets_cases {result : Except Exception (Socket × Socket)}
    (h : initializeSockets path₁ path₂ kernel₁ kernel₂ fs = (fs', result)) :
    (∃ ex, result = .error ex ∧ Initialized fs path₁ .fastcgi fs' (.error ex)) ∨
      ∃ e r, Usable fs path₁ e ∧
        Initialized (fs.set e (some (.socket .fastcgi))) path₂ .stats fs' r ∧
        ((∃ ex, result = .error ex ∧ r = .error ex) ∨
          result = .ok (.fastcgi, .stats) ∧ r = .ok .stats) := by
  unfold initializeSockets at h
  rcases h₁ : initializeUNIXSocket path₁ .fastcgi kernel₁ fs with ⟨fs₁, _ | sockfd₁⟩
  · rw [h₁] at h
    obtain ⟨rfl, rfl⟩ := Prod.mk.inj h
    exact .inl ⟨_, rfl, initializeUNIXSocket_cases h₁⟩
  rw [h₁] at h
  cases initializeUNIXSocket_cases h₁ with
  | @listening e hu =>
    refine .inr ⟨e, ?_⟩
    dsimp only at h
    rcases h₂ : initializeUNIXSocket path₂ .stats kernel₂ (fs.set e (some (.socket .fastcgi)))
      with ⟨fs₂, ex | sockfd₂⟩
    · rw [h₂] at h
      obtain ⟨rfl, rfl⟩ := Prod.mk.inj h
      exact ⟨.error ex, hu, initializeUNIXSocket_cases h₂, .inl ⟨ex, rfl, rfl⟩⟩
    · rw [h₂] at h
      obtain ⟨rfl, rfl⟩ := Prod.mk.inj h
      have h₂ := initializeUNIXSocket_cases h₂
      cases h₂ with
      | listening hu₂ => exact ⟨.ok .stats, hu, .listening hu₂, .inr ⟨rfl, rfl⟩⟩

theorem listensWhereAsked_of_firstRefused {fs : InitialFiles Entry}
    (h : Refused fs.toFileSystem path₁) : ListensWhereAsked fs path₁ path₂ where
  returned kernel₁ kernel₂ fs' _ _ hrun := by
    rcases initializeSockets_cases hrun with ⟨_, hex, -⟩ | ⟨_, _, hu, -⟩
    · cases hex
    · exact absurd hu (not_usable_of_refused h)
  thrown kernel₁ kernel₂ fs' ex hrun := by
    rcases initializeSockets_cases hrun with ⟨_, -, hinit⟩ | ⟨_, _, hu, -⟩
    · exact hinit.clean clean_refl fun _ hu => absurd hu (not_usable_of_refused h)
    · exact absurd hu (not_usable_of_refused h)

theorem listensWhereAsked_of_secondRefused {fs : InitialFiles Entry}
    (h₁ : fs.lookup path₁.sunPath = some e)
    (hnamed : fs.lookup path₁ = some e ∨ fs.lookup path₂ = some e)
    (hlink : ∀ target, fs.node e ≠ some (.link target))
    (h₂ : Refused (fs.toFileSystem.set e (some (.socket .fastcgi))) path₂) :
    ListensWhereAsked fs path₁ path₂ where
  returned kernel₁ kernel₂ fs' _ _ hrun := by
    rcases initializeSockets_cases hrun with ⟨_, hex, -⟩ | ⟨e', r, hu, hinit, hr⟩
    · cases hex
    obtain rfl := hu.eq h₁
    rcases hr with ⟨_, hex, -⟩ | ⟨-, rfl⟩
    · cases hex
    · cases hinit with
      | listening hu₂ => exact absurd hu₂ (not_usable_of_refused h₂)
  thrown kernel₁ kernel₂ fs' ex hrun := by
    have hplain : ∀ e', Usable fs.toFileSystem path₁ e' →
        (fs.lookup path₁ = some e' ∨ fs.lookup path₂ = some e') ∧ Plain (fs.node e') := by
      intro e' hu
      obtain rfl := hu.eq h₁
      exact ⟨hnamed, hu.plain hlink⟩
    rcases initializeSockets_cases hrun with ⟨_, -, hinit⟩ | ⟨e', r, hu, hinit, -⟩
    · exact hinit.clean clean_refl hplain
    · obtain rfl := hu.eq h₁
      refine hinit.clean (clean_refl.set (hplain e' hu).1 (hplain e' hu).2 (plain_socket _)) ?_
      exact fun _ hu₂ => absurd hu₂ (not_usable_of_refused h₂)

theorem listensWhereAsked_of_different {fs : InitialFiles Entry}
    (h₁ : Named fs.toFileSystem path₁ e₁) (h₂ : Named fs.toFileSystem path₂ e₂) (hne : e₁ ≠ e₂) :
    ListensWhereAsked fs path₁ path₂ where
  returned kernel₁ kernel₂ fs' _ _ hrun := by
    rcases initializeSockets_cases hrun with ⟨_, hex, -⟩ | ⟨e, r, hu, hinit, hr⟩
    · cases hex
    obtain rfl := hu.eq h₁.lookup_sunPath
    rcases hr with ⟨_, hex, -⟩ | ⟨hok, rfl⟩
    · cases hex
    obtain ⟨rfl, rfl⟩ := Prod.mk.inj (Except.ok.inj hok)
    cases hinit with
    | @listening e' hu₂ =>
      obtain rfl := hu₂.eq h₂.lookup_sunPath
      refine ⟨?_, ?_, fun e'' hne₁ hne₂ => ?_⟩
      · rw [FileSystem.nodeAt, FileSystem.set_lookup, FileSystem.set_lookup, h₁.lookup,
          Option.bind_some, FileSystem.set_node_of_ne hne, FileSystem.set_node_self]
      · rw [FileSystem.nodeAt, FileSystem.set_lookup, FileSystem.set_lookup, h₂.lookup,
          Option.bind_some, FileSystem.set_node_self]
      · have hne₁ : e'' ≠ e := by
          rintro rfl
          exact hne₁ h₁.lookup
        have hne₂ : e'' ≠ e' := by
          rintro rfl
          exact hne₂ h₂.lookup
        rw [FileSystem.set_node_of_ne hne₂, FileSystem.set_node_of_ne hne₁]
  thrown kernel₁ kernel₂ fs' ex hrun := by
    have hplain : ∀ e, Usable fs.toFileSystem path₁ e →
        (fs.lookup path₁ = some e ∨ fs.lookup path₂ = some e) ∧ Plain (fs.node e) := by
      intro e hu
      obtain rfl := hu.eq h₁.lookup_sunPath
      exact ⟨.inl h₁.lookup, hu.plain h₁.not_link⟩
    rcases initializeSockets_cases hrun with ⟨_, -, hinit⟩ | ⟨e, r, hu, hinit, -⟩
    · exact hinit.clean clean_refl hplain
    obtain rfl := hu.eq h₁.lookup_sunPath
    refine hinit.clean (clean_refl.set (hplain e hu).1 (hplain e hu).2 (plain_socket _)) ?_
    intro e' hu₂
    obtain rfl := hu₂.eq h₂.lookup_sunPath
    have hnode : (fs.set e (some (.socket .fastcgi))).node e' = fs.node e' :=
      FileSystem.set_node_of_ne hne.symm
    refine ⟨.inr h₂.lookup, ?_⟩
    rw [← hnode]
    exact hu₂.plain (hnode ▸ h₂.not_link)

/-! ## What the law asks for -/

theorem initializeSockets_eq {fs : Files Entry} (h₁ : Usable fs path₁ e₁) :
    initializeSockets path₁ path₂ .grants kernel₂ fs =
      match initializeUNIXSocket path₂ .stats kernel₂ (fs.set e₁ (some (.socket .fastcgi))) with
      | (fs, .error ex) => (fs, .error ex)
      | (fs, .ok statsSockfd) => (fs, .ok (.fastcgi, statsSockfd)) := by
  rw [initializeSockets, initializeUNIXSocket_grants h₁]

/-- No symbolic link may be removed. -/
theorem ListensWhereAsked.not_link_first {fs : InitialFiles Entry}
    (h : ListensWhereAsked fs path₁ path₂) (h₁ : Usable fs.toFileSystem path₁ e₁) :
    ∀ target, fs.node e₁ ≠ some (.link target) := by
  intro target htarget
  have hrun : initializeSockets path₁ path₂ .refusesBind .grants fs.toFileSystem =
      (fs.set e₁ none, .error (.syscall "bind" "Operation not permitted")) := by
    rw [initializeSockets, initializeUNIXSocket_refusesBind h₁ (by rw [htarget]; simp)]
  obtain ⟨-, hplain, -⟩ := h.thrown _ _ _ _ hrun e₁ (by simp [htarget])
  exact hplain _ htarget

theorem ListensWhereAsked.not_link_second {fs : InitialFiles Entry}
    (h : ListensWhereAsked fs path₁ path₂) (h₁ : Usable fs.toFileSystem path₁ e₁)
    (h₂ : Usable (fs.set e₁ (some (.socket .fastcgi))) path₂ e₂) (hne : e₁ ≠ e₂) :
    ∀ target, fs.node e₂ ≠ some (.link target) := by
  intro target htarget
  have hnode : (fs.set e₁ (some (.socket .fastcgi))).node e₂ = some (.link target) :=
    (FileSystem.set_node_of_ne hne.symm).trans htarget
  have hrun : initializeSockets path₁ path₂ .grants .refusesBind fs.toFileSystem =
      ((fs.set e₁ (some (.socket .fastcgi))).set e₂ none,
        .error (.syscall "bind" "Operation not permitted")) := by
    rw [initializeSockets_eq h₁, initializeUNIXSocket_refusesBind h₂ (by rw [hnode]; simp)]
  obtain ⟨-, hplain, -⟩ := h.thrown _ _ _ _ hrun e₂ (by simp [htarget])
  exact hplain _ htarget

/-- The first socket must be at one of the two paths, since the second call may fail. -/
theorem ListensWhereAsked.named_first {fs : InitialFiles Entry}
    (h : ListensWhereAsked fs path₁ path₂) (h₁ : Usable fs.toFileSystem path₁ e₁) :
    fs.lookup path₁ = some e₁ ∨ fs.lookup path₂ = some e₁ := by
  have hrun : initializeSockets path₁ path₂ .grants .refusesSocket fs.toFileSystem =
      (fs.set e₁ (some (.socket .fastcgi)), .error (.syscall "socket" "Operation not permitted")) :=
    initializeSockets_eq h₁
  refine (h.thrown _ _ _ _ hrun e₁ ?_).1
  rw [FileSystem.set_node_self]
  exact (fs.not_fastcgi e₁).symm

/-- If both calls return, each socket must be at its own path. -/
theorem ListensWhereAsked.named_both {fs : InitialFiles Entry}
    (h : ListensWhereAsked fs path₁ path₂) (h₁ : Usable fs.toFileSystem path₁ e₁)
    (h₂ : Usable (fs.set e₁ (some (.socket .fastcgi))) path₂ e₂) :
    fs.lookup path₁ = some e₁ ∧ fs.lookup path₂ = some e₂ ∧ e₁ ≠ e₂ := by
  have hrun : initializeSockets path₁ path₂ .grants .grants fs.toFileSystem =
      ((fs.set e₁ (some (.socket .fastcgi))).set e₂ (some (.socket .stats)),
        .ok (.fastcgi, .stats)) := by
    rw [initializeSockets_eq h₁, initializeUNIXSocket_grants h₂]
  obtain ⟨hfastcgi, hstats, -⟩ := h.returned _ _ _ _ _ hrun
  -- the two sockets are new, so that they are where they have been made and nowhere else
  obtain ⟨x, hx, hxnode⟩ := Option.bind_eq_some_iff.1 hfastcgi
  obtain ⟨y, hy, hynode⟩ := Option.bind_eq_some_iff.1 hstats
  have hxe₂ : x ≠ e₂ := by
    rintro rfl
    simp at hxnode
  rw [FileSystem.set_node_of_ne hxe₂] at hxnode
  have hxe₁ : x = e₁ := by
    by_contra hne
    rw [FileSystem.set_node_of_ne hne] at hxnode
    exact fs.not_fastcgi x hxnode
  have hye₂ : y = e₂ := by
    by_contra hne
    rw [FileSystem.set_node_of_ne hne] at hynode
    rcases eq_or_ne y e₁ with rfl | hne₁
    · simp at hynode
    · rw [FileSystem.set_node_of_ne hne₁] at hynode
      exact fs.not_stats y hynode
  subst hxe₁ hye₂
  exact ⟨hx, hy, hxe₂⟩

/-- **When the sockets listen where they should.** -/
theorem listensWhereAsked_iff (fs : InitialFiles Entry) (path₁ path₂ : SocketPath) :
    ListensWhereAsked fs path₁ path₂ ↔ Unambiguous fs.toFileSystem path₁ path₂ := by
  constructor
  · intro h
    rcases refused_or_usable fs.toFileSystem path₁ with hrefused | ⟨e₁, h₁⟩
    · exact .firstRefused hrefused
    have hlink := h.not_link_first h₁
    rcases refused_or_usable (fs.set e₁ (some (.socket .fastcgi))) path₂ with hrefused | ⟨e₂, h₂⟩
    · exact .secondRefused h₁.lookup (h.named_first h₁) hlink hrefused
    · obtain ⟨hnamed₁, hnamed₂, hne⟩ := h.named_both h₁ h₂
      exact .different ⟨h₁.lookup, hnamed₁, hlink⟩
        ⟨h₂.lookup, hnamed₂, h.not_link_second h₁ h₂ hne⟩ hne
  · rintro (h | ⟨h₁, hnamed, hlink, h₂⟩ | ⟨h₁, h₂, hne⟩)
    · exact listensWhereAsked_of_firstRefused h
    · exact listensWhereAsked_of_secondRefused h₁ hnamed hlink h₂
    · exact listensWhereAsked_of_different h₁ h₂ hne

/-- The path of `n + 1` times the letter `a`. -/
def SocketPath.letters (n : ℕ) : SocketPath where
  bytes := List.replicate (n + 1) (Text.byte 'a')
  bytes_ne_nil := List.cons_ne_nil _ _
  nul_notMem h := absurd (List.eq_of_mem_replicate h) (by decide)

/-- A directory with nothing in it. -/
def InitialFiles.empty : InitialFiles (List Byte) where
  lookup p := some p.bytes
  node _ := none
  not_fastcgi _ := Option.some_ne_none _ |>.symm
  not_stats _ := Option.some_ne_none _ |>.symm

/-- A path of 108 bytes: the FastCGI socket is made at another path. -/
theorem not_listensWhereAsked_longPath :
    ¬ ListensWhereAsked InitialFiles.empty (.letters 107) (.letters 0) := by
  intro h
  have hu : Usable InitialFiles.empty.toFileSystem (.letters 107)
      (List.replicate 107 (Text.byte 'a')) :=
    ⟨by decide, .inl rfl⟩
  rcases h.named_first hu with h | h
  · exact absurd h (by decide)
  · exact absurd h (by decide)

/-! ## In the startup -/

/-- **The startup goes on with these results**: either with the next step or in a catch clause. -/
theorem startup_initializeUNIXSocket (st : Startup) (next : Startup.Pc)
    (h : initializeUNIXSocket path s kernel fs = (fs', r)) :
    ∃ o, st.initializeUNIXSocket path.sunPath.text next o =
      match r with
      | .ok _ => st.goto next
      | .error ex => st.goto (.catchException ex) := by
  unfold initializeUNIXSocket at h
  split at h
  · obtain ⟨rfl, rfl⟩ := Prod.mk.inj h
    exact ⟨.fails "socket" kernel.socket.strerror, rfl⟩
  cases hremove : removeSocketFile path.sunPath kernel fs with
  | error ex =>
    rw [hremove] at h
    obtain ⟨rfl, rfl⟩ := Prod.mk.inj h
    unfold removeSocketFile at hremove
    split_ifs at hremove
    split at hremove
    · cases hremove
    · split at hremove
      · obtain rfl := Except.error.inj hremove
        exact ⟨.unlinkFails kernel.unlink.strerror, rfl⟩
      · cases hremove
    · obtain rfl := Except.error.inj hremove
      exact ⟨.notASocket, rfl⟩
  | ok fs₁ =>
    simp only [hremove] at h
    split at h
    · obtain ⟨rfl, rfl⟩ := Prod.mk.inj h
      exact ⟨.fails "bind" kernel.bind.strerror, rfl⟩
    · split_ifs at h <;> obtain ⟨rfl, rfl⟩ := Prod.mk.inj h
      · exact ⟨.fails "listen" kernel.listen.strerror, rfl⟩
      · exact ⟨.ok, rfl⟩

end BladePSGI.Main
