import BladePSGI.Perl.FastCGIWrapper

/-!
# The three ways to deliver a response

An application returns its response array, or a subroutine that calls the responder with it, or one
that calls the responder without a body and prints the chunks through the writer it gets back.
`serve` is one request with one of these answers, as far as it goes to `stdout`; `decode` reads the
bytes back.

* `reach_serve`: a request that `serve` serves is a run of the worker.
* `delivered_alike`: the three ways print the same bytes, and the bytes say what the response was.
-/

namespace BladePSGI.Perl.FastCGIWrapper

open Function Text Transition

variable {lib : Library} {lines : Scalar → List Scalar} {heap heap' : Heap} {out : List Byte}

/-- `$write` on each of the chunks: `print` to `stdout`. -/
def write (lib : Library) (chunks : List Scalar) : List Byte := chunks.flatMap lib.interpolate

/-- `Plack::Util::foreach($body, $write)`, with `lines` for what `getline` returns. -/
def chunksOf (lines : Scalar → List Scalar) (heap : Heap) : Scalar → List Scalar
  | .array body => heap body
  | body => lines body

/-- What `$handle_response` has done: the arrays, the bytes it has printed, and whether it returns
a writer. -/
structure Handled where
  heap : Heap
  out : List Byte
  writer : Bool

/-- `$handle_response`, `none` where it dies. -/
def handle (lib : Library) (lines : Scalar → List Scalar) (heap : Heap) (res : Ref) :
    Option Handled :=
  match handleResponse lib heap res with
  | none => none
  | some (heap, sent) =>
    let body := element (heap res) 2
    if body = .undef then some ⟨heap, sent.hdrs, true⟩
    else some ⟨heap, sent.hdrs ++ write lib (chunksOf lines heap body), false⟩

/-- What the application answers. -/
inductive Answer
  | array (res : Ref)
  /-- A subroutine that calls the responder and prints the chunks through the writer. -/
  | code (res : Ref) (chunks : List Scalar)

/-- The closure from the return of `run_app` to `Finish`: the arrays and the bytes on `stdout`,
`none` where it dies. -/
def serve (lib : Library) (lines : Scalar → List Scalar) (heap : Heap) :
    Answer → Option (Heap × List Byte)
  | .array res =>
    match handle lib lines heap res with
    | none => none
    | some h => some (h.heap, h.out)
  | .code res chunks =>
    match handle lib lines heap res with
    | none => none
    | some h =>
      if h.writer then some (h.heap, h.out ++ write lib chunks)
      -- `$writer->write` on what `foreach` returns
      else if chunks = [] then some (h.heap, h.out) else none

/-! ## The worker -/

/-- What an event prints. -/
def Event.printout : Event → List Byte
  | .sent response => response.hdrs
  | .printed line => line
  | _ => []

/-- What a run has printed. -/
def stdout (tr : List Event) : List Byte := tr.flatMap Event.printout

theorem stdout_append (tr es : List Event) : stdout (tr ++ es) = stdout tr ++ stdout es :=
  List.flatMap_append

/-- The worker prints chunk by chunk. -/
theorem reach_print (lib : Library) (chunks : List Scalar) {s : State}
    (hpc : s.pc = .streaming ∨ ∃ streaming, s.pc = .body streaming) :
    ∃ tr, (machine lib).Reach s tr s ∧ stdout tr = write lib chunks := by
  induction chunks with
  | nil => exact ⟨[], .nil, rfl⟩
  | cons chunk chunks ih =>
    obtain ⟨tr, hreach, hout⟩ := ih
    have hstep : (machine lib).step s (.print (lib.interpolate chunk)) =
        some (s, [.printed (lib.interpolate chunk)]) := by
      rcases hpc with hpc | ⟨streaming, hpc⟩ <;> simp [machine, step, hpc]
    refine ⟨_, (Machine.Reach.one hstep).trans hreach, ?_⟩
    rw [stdout_append, hout]
    simp [stdout, Event.printout, write]

/-- A step that calls `$handle_response`, and what it prints until it returns to `next`. -/
theorem reach_handle (streaming : Bool) {s : State} {a : Action} {res : Ref} {next : Pc}
    {h : Handled} (hnext : next = if streaming then .streaming else .finishing)
    (hstep : (machine lib).step s a = some (send lib s res streaming next))
    (hh : handle lib lines s.heap res = some h) :
    ∃ tr, (machine lib).Reach s tr ⟨h.heap, next⟩ ∧ stdout tr = h.out := by
  unfold handle at hh
  split at hh
  · cases hh
  · rename_i heap sent hsend
    simp only [send, hsend] at hstep
    dsimp only at hh
    split_ifs at hh hstep with hbody
    · obtain rfl := Option.some.inj hh
      exact ⟨_, .one hstep, by simp [stdout, Event.printout]⟩
    · obtain rfl := Option.some.inj hh
      obtain ⟨tr, hprint, hout⟩ := reach_print lib (chunksOf lines heap (element (heap res) 2))
        (s := ⟨heap, .body streaming⟩) (Or.inr ⟨streaming, rfl⟩)
      have hdone : (machine lib).step ⟨heap, .body streaming⟩ .bodyDone =
          some (⟨heap, next⟩, []) := by
        rw [hnext]
        rfl
      refine ⟨_, ((Machine.Reach.one hstep).trans hprint).trans (.one hdone), ?_⟩
      rw [stdout_append, stdout_append, hout]
      simp [stdout, Event.printout]

/-- **A request that is served is a run of the worker.** -/
theorem reach_serve {answer : Answer} (h : serve lib lines heap answer = some (heap', out)) :
    ∃ tr, Reach lib heap tr ⟨heap', .idle⟩ ∧ stdout tr = out := by
  have haccept : (machine lib).step ⟨heap, .idle⟩ (.accept true) =
      some (⟨heap, .running⟩, [.accepted]) := rfl
  have hfinish : ∀ heap, (machine lib).step ⟨heap, .finishing⟩ .finish =
      some (⟨heap, .idle⟩, [.finished]) := fun _ => rfl
  cases answer with
  | array res =>
    simp only [serve] at h
    split at h
    · cases h
    · rename_i r hr
      obtain ⟨rfl, rfl⟩ := Prod.mk.inj (Option.some.inj h)
      obtain ⟨tr, hreach, hout⟩ := reach_handle false (s := ⟨heap, .running⟩)
        (a := .returns (.array res)) rfl rfl hr
      refine ⟨_, ((Machine.Reach.one haccept).trans hreach).trans (.one (hfinish _)), ?_⟩
      rw [stdout_append, stdout_append, hout]
      simp [stdout, Event.printout]
  | code res chunks =>
    simp only [serve] at h
    split at h
    · cases h
    · rename_i r hr
      have hcode : (machine lib).step ⟨heap, .running⟩ (.returns (.code 0)) =
          some (⟨heap, .streaming⟩, []) := rfl
      have hstreamed : (machine lib).step ⟨r.heap, .streaming⟩ .streamed =
          some (⟨r.heap, .finishing⟩, []) := rfl
      obtain ⟨tr, hreach, hout⟩ := reach_handle true (s := ⟨heap, .streaming⟩)
        (a := .respond res) rfl rfl hr
      obtain ⟨tr', hprint, hout'⟩ := reach_print lib chunks (s := ⟨r.heap, .streaming⟩) (Or.inl rfl)
      have hserved : heap' = r.heap ∧ out = r.out ++ write lib chunks := by
        split_ifs at h with hwriter hchunks
        · obtain ⟨rfl, rfl⟩ := Prod.mk.inj (Option.some.inj h)
          exact ⟨rfl, rfl⟩
        · obtain ⟨rfl, rfl⟩ := Prod.mk.inj (Option.some.inj h)
          simp [hchunks, write]
      obtain ⟨rfl, rfl⟩ := hserved
      refine ⟨_, ((((Machine.Reach.one haccept).trans (.one hcode)).trans hreach).trans
        hprint).trans ((Machine.Reach.one hstreamed).trans (.one (hfinish _))), ?_⟩
      simp only [stdout_append, hout, hout']
      simp [stdout, Event.printout]

/-! ## Reading the bytes back -/

/-- What the bytes of a response say. -/
structure Decoded where
  status : List Byte
  headers : List (List Byte × List Byte)
  body : List Byte
  deriving DecidableEq

/-- Split at the first empty line, then at the ends of the lines and the first `": "` of each; the
status goes up to the blank. -/
def decode (out : List Byte) : Option Decoded :=
  match splitFirst (crlf ++ crlf) out with
  | none => none
  | some (head, body) =>
    match (splitAll crlf head).mapM (splitFirst [byte ':', byte ' ']) with
    | none | some [] => none
    | some (status :: headers) =>
      some ⟨status.2.takeWhile (· ≠ byte ' '), headers, body⟩

/-- A text without line ends. -/
def OneLine (text : List Byte) : Prop := byte '\r' ∉ text ∧ byte '\n' ∉ text

/-- What PSGI asks of a status: it is a number. -/
def ConformingStatus (text : List Byte) : Prop := OneLine text ∧ byte ' ' ∉ text

/-- What PSGI asks of a header, as far as its line depends on it. -/
def ConformingHeader (lib : Library) (header : Scalar × Scalar) : Prop :=
  byte ':' ∉ lib.interpolate header.1 ∧ OneLine (lib.interpolate header.1) ∧
    OneLine (lib.interpolate header.2)

/-! ## The bytes of a response -/

variable {status : Scalar} {headers : List (Scalar × Scalar)} {chunks : List Scalar}
  {res hs body : Ref}

/-- A header array. -/
def headerArray (headers : List (Scalar × Scalar)) : List Scalar :=
  headers.flatMap fun h => [h.1, h.2]

/-- The array `res` starts with the status and a reference to the header array `hs`. -/
structure Stored (heap : Heap) (res hs : Ref) (status : Scalar) (headers : List (Scalar × Scalar))
    (rest : List Scalar) : Prop where
  elements : heap res = status :: .array hs :: rest
  headers : heap hs = headerArray headers

/-- What a request prints. -/
def printed (lib : Library) (lines : Scalar → List Scalar) (heap : Heap) (answer : Answer) :
    Option (List Byte) :=
  (serve lib lines heap answer).map Prod.snd

/-- The bytes of a response. -/
def encode (lib : Library) (status : Scalar) (headers : List (Scalar × Scalar))
    (chunks : List Scalar) : List Byte :=
  statusLine lib status ++ (headers.flatMap fun h => headerLine lib h.1 h.2) ++ crlf ++
    write lib chunks

/-- The loop, over an array of even length. -/
theorem headerLoop_headerArray (lib : Library) (hdrs : List Byte)
    (headers : List (Scalar × Scalar)) :
    headerLoop lib hdrs (headerArray headers) =
      (hdrs ++ headers.flatMap fun h => headerLine lib h.1 h.2, []) := by
  induction headers generalizing hdrs with
  | nil => simp [headerArray, headerLoop]
  | cons h headers ih =>
    show headerLoop lib (hdrs ++ headerLine lib h.1 h.2) (headerArray headers) = _
    rw [ih, List.flatMap_cons, List.append_assoc]

theorem length_headerArray (headers : List (Scalar × Scalar)) :
    (headerArray headers).length = 2 * headers.length := by
  induction headers with
  | nil => rfl
  | cons h headers ih =>
    rw [headerArray, List.flatMap_cons, ← headerArray, List.length_append, ih, List.length_cons]
    simp
    omega

/-- `$handle_response` prints the head and empties the header array. -/
theorem handleResponse_of_stored (lib : Library) {rest : List Scalar}
    (h : Stored heap res hs status headers rest) :
    ∃ sent, handleResponse lib heap res = some (update heap hs [], sent) ∧
      sent.hdrs = encode lib status headers [] := by
  have hstatus : element (heap res) 0 = status := by rw [h.elements]; rfl
  have hheaders : element (heap res) 1 = .array hs := by rw [h.elements]; rfl
  simp only [handleResponse, hheaders, h.headers, headerLoop_headerArray, hstatus, List.nil_append]
  refine ⟨_, rfl, ?_⟩
  simp [Sent.hdrs, encode, write]

theorem encode_chunks (lib : Library) (status : Scalar) (headers : List (Scalar × Scalar))
    (chunks : List Scalar) :
    encode lib status headers chunks = encode lib status headers [] ++ write lib chunks := by
  simp [encode, write]

/-- An array of three elements is no header array. -/
theorem Stored.ne (h : Stored heap res hs status headers [.array body]) : res ≠ hs := by
  rintro rfl
  have hlen := congrArg List.length (h.elements.symm.trans h.headers)
  rw [length_headerArray] at hlen
  simp only [List.length_cons, List.length_nil] at hlen
  omega

/-- A response with a body. -/
theorem handle_body (h : Stored heap res hs status headers [.array body])
    (hbody : heap body = chunks) (hne : hs ≠ body) :
    handle lib lines heap res =
      some ⟨update heap hs [], encode lib status headers chunks, false⟩ := by
  obtain ⟨sent, hsend, hhdrs⟩ := handleResponse_of_stored lib h
  have helement : element (update heap hs [] res) 2 = .array body := by
    rw [update_of_ne h.ne, h.elements]
    rfl
  have hchunks : chunksOf lines (update heap hs []) (.array body) = chunks := by
    rw [chunksOf, update_of_ne hne.symm, hbody]
  simp only [handle, hsend, helement, hchunks, hhdrs, reduceCtorEq, if_false]
  rw [← encode_chunks]

/-- A response without one. -/
theorem handle_writer (h : Stored heap res hs status headers []) :
    handle lib lines heap res =
      some ⟨update heap hs [], encode lib status headers [], true⟩ := by
  obtain ⟨sent, hsend, hhdrs⟩ := handleResponse_of_stored lib h
  have helement : element (update heap hs [] res) 2 = .undef := by
    by_cases heq : res = hs
    · rw [heq, update_self]
      rfl
    · rw [update_of_ne heq, h.elements]
      rfl
  simp only [handle, hsend, helement, hhdrs, if_true]

/-! ## The bytes say what the response was -/

/-- `"Status: $res->[0] $message"`. -/
def statusText (lib : Library) (status : Scalar) : List Byte :=
  ['S', 't', 'a', 't', 'u', 's'].map byte ++ [byte ':', byte ' '] ++
    (lib.interpolate status ++ byte ' ' :: lib.interpolate (lib.statusMessage status))

/-- The fields of the header lines. -/
def headerFields (lib : Library) (headers : List (Scalar × Scalar)) :
    List (List Byte × List Byte) :=
  headers.map fun h => (lib.interpolate h.1, lib.interpolate h.2)

/-- `"$k: $v"`. -/
def headerText (field : List Byte × List Byte) : List Byte :=
  field.1 ++ [byte ':', byte ' '] ++ field.2

/-- The head is made of lines, and an empty one ends it. -/
theorem encode_eq (lib : Library) (status : Scalar) (headers : List (Scalar × Scalar))
    (chunks : List Scalar) :
    encode lib status headers chunks =
      joined crlf (statusText lib status) ((headerFields lib headers).map headerText) ++
        (crlf ++ crlf) ++ write lib chunks := by
  have hlines := flatMap_terminated crlf (statusText lib status)
    ((headerFields lib headers).map headerText)
  rw [← List.append_assoc, ← hlines]
  simp [encode, statusLine, headerLine, statusText, headerText, headerFields, List.flatMap_map]

/-- The fields of the status line. -/
def statusField (lib : Library) (status : Scalar) : List Byte × List Byte :=
  (['S', 't', 'a', 't', 'u', 's'].map byte,
    lib.interpolate status ++ byte ' ' :: lib.interpolate (lib.statusMessage status))

theorem notMem_statusText (hstatus : ConformingStatus (lib.interpolate status))
    (hmessage : OneLine (lib.interpolate (lib.statusMessage status))) :
    byte '\r' ∉ statusText lib status := by
  have hname : byte '\r' ∉ ['S', 't', 'a', 't', 'u', 's'].map byte ++ [byte ':', byte ' '] := by
    decide
  intro h
  rcases List.mem_append.1 h with h | h
  · exact hname h
  rw [List.mem_append, List.mem_cons] at h
  rcases h with h | h | h
  · exact hstatus.1.1 h
  · exact absurd h (by decide)
  · exact hmessage.1 h

theorem headerText_oneLine (hheaders : ∀ h ∈ headers, ConformingHeader lib h) :
    ∀ line ∈ (headerFields lib headers).map headerText, line ≠ [] ∧ byte '\r' ∉ line := by
  intro line hline
  simp only [headerFields, List.map_map, List.mem_map, comp_apply] at hline
  obtain ⟨h, hmem, rfl⟩ := hline
  obtain ⟨-, hname, hvalue⟩ := hheaders h hmem
  refine ⟨by simp [headerText], ?_⟩
  simp only [headerText, List.mem_append, List.mem_cons, List.not_mem_nil, or_false]
  rintro ((h | h | h) | h)
  · exact hname.1 h
  · exact absurd h (by decide)
  · exact absurd h (by decide)
  · exact hvalue.1 h

/-- **The encoder can be undone.** -/
theorem decode_encode (hstatus : ConformingStatus (lib.interpolate status))
    (hmessage : OneLine (lib.interpolate (lib.statusMessage status)))
    (hheaders : ∀ h ∈ headers, ConformingHeader lib h) (chunks : List Scalar) :
    decode (encode lib status headers chunks) =
      some ⟨lib.interpolate status, headerFields lib headers, write lib chunks⟩ := by
  have hline := notMem_statusText hstatus hmessage
  have hlines := headerText_oneLine hheaders
  have hhead : splitFirst (crlf ++ crlf) (encode lib status headers chunks) =
      some (joined crlf (statusText lib status) ((headerFields lib headers).map headerText),
        write lib chunks) := by
    rw [encode_eq]
    exact splitFirst_emptyLine (by decide) hline hlines _
  have hall : splitAll crlf
      (joined crlf (statusText lib status) ((headerFields lib headers).map headerText)) =
      (statusField lib status :: headerFields lib headers).map headerText := by
    refine splitAll_joined fun m hm => ?_
    rcases List.mem_cons.1 hm with rfl | hm
    · exact hline
    · exact (hlines m hm).2
  have hfields : ((statusField lib status :: headerFields lib headers).map headerText).mapM
      (splitFirst [byte ':', byte ' ']) =
      some (statusField lib status :: headerFields lib headers) := by
    refine mapM_splitFirst fun f hf => ?_
    rcases List.mem_cons.1 hf with rfl | hf
    · show byte ':' ∉ ['S', 't', 'a', 't', 'u', 's'].map byte
      decide
    · obtain ⟨h, hmem, rfl⟩ := List.mem_map.1 hf
      exact (hheaders h hmem).1
  have htake : (statusField lib status).2.takeWhile (· ≠ byte ' ') = lib.interpolate status := by
    rw [statusField, List.takeWhile_append_of_pos fun b hb => ?_]
    · simp
    · exact decide_eq_true fun heq => hstatus.2 (heq ▸ hb)
  simp only [decode, hhead, hall, hfields, htake]

/-- **The three ways to deliver a response print the same bytes**, and the bytes say what the
response was. -/
theorem delivered_alike (lines : Scalar → List Scalar)
    (hstatus : ConformingStatus (lib.interpolate status))
    (hmessage : OneLine (lib.interpolate (lib.statusMessage status)))
    (hheaders : ∀ h ∈ headers, ConformingHeader lib h) (chunks : List Scalar) : ∃ out,
    (∀ heap res hs body, Stored heap res hs status headers [.array body] → heap body = chunks →
      hs ≠ body → printed lib lines heap (.array res) = some out ∧
        printed lib lines heap (.code res []) = some out) ∧
    (∀ heap res hs, Stored heap res hs status headers [] →
      printed lib lines heap (.code res chunks) = some out) ∧
    decode out =
      some ⟨lib.interpolate status, headerFields lib headers, chunks.flatMap lib.interpolate⟩ := by
  refine ⟨encode lib status headers chunks, fun heap res hs body h hbody hne => ?_,
    fun heap res hs h => ?_, decode_encode hstatus hmessage hheaders chunks⟩
  · simp [printed, serve, handle_body h hbody hne]
  · simp [printed, serve, handle_writer h, encode_chunks lib status headers chunks]

/-- The response `oneHeader` with a body of an empty line. -/
def emptyLineBody : Heap := update oneHeader 2 [.string crlf, .string crlf]

theorem delivered_alike_emptyLineBody : ∃ out,
    printed plain (fun _ => []) emptyLineBody (.array 0) = some out ∧
    printed plain (fun _ => []) emptyLineBody (.code 0 []) = some out ∧
    decode out =
      some ⟨['2', '0', '0'].map byte, [([byte 'A'], [byte 'b'])], crlf ++ crlf⟩ := by
  have hstored : Stored emptyLineBody 0 1 (.string (['2', '0', '0'].map byte))
      [(.string [byte 'A'], .string [byte 'b'])] [.array 2] := ⟨by decide, by decide⟩
  obtain ⟨out, hbody, -, hdecode⟩ := @delivered_alike plain
    (.string (['2', '0', '0'].map byte)) [(.string [byte 'A'], .string [byte 'b'])] (fun _ => [])
    ⟨⟨by decide, by decide⟩, by decide⟩ ⟨by decide, by decide⟩
    (by simpa using ⟨by decide, ⟨by decide, by decide⟩, by decide, by decide⟩)
    [.string crlf, .string crlf]
  obtain ⟨himmediate, hdelayed⟩ := hbody _ _ _ _ hstored (by decide) (by decide)
  exact ⟨out, himmediate, hdelayed, hdecode⟩

end BladePSGI.Perl.FastCGIWrapper
