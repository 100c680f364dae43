import FanucDriver.Driver.Memory.HeaderScan

/-!
# The program header in memory

`getMachineProgramHeader` of `data.c` down to its buffers and its calls: the local
`program`, which nothing initialises, the record, and the session that `cnc_upstart` opens
and `cnc_upend3` closes.

- `header_lines`: what is scanned and stored of an uploaded text, in terms of its lines.
- `keepsDiscipline_iff`: exactly which answers of the library leave no session open and
  store no text but what the call itself uploaded.

`getMachineProgramHeader_refines` ties the getter to the one on texts.

Mirroring notes:
- `EW_BUFFER` leaves `program` alone. What it leaves in `len` is no more than `len` was.
- What the getter does is recorded: the calls it makes and what it prints to `v->header`.
-/

namespace FanucDriver.Driver.Memory

open FanucDriver.Lib FanucDriver.Lib.Buffer

/-! ## `getMachineProgramHeader` -/

/-- What `sprintf` writes to `v->header`: one of the two errors, or `program`. -/
inductive HeaderText where
  | notFound
  | unreadable
  | program
  deriving DecidableEq

/-- What the getter does: a call of the library, with its answer, or a write to
`v->header`. -/
inductive Action where
  | upstart (programNum : Short) (answer : Except EW Unit)
  /-- `EW_BUFFER` -/
  | upload3Buffer
  | upload3 (answer : Except EW { data : List Char // data.length ≤ 2047 })
  | upend3 (answer : Except EW Unit)
  | sprintf (text : HeaderText)

/-- The record in memory. -/
structure MachineProgram where
  executionDuration : Option ULong
  number : Option Short
  header : Buffer Char

/-- `malloc(sizeof *v)` -/
def MachineProgram.malloc : MachineProgram where
  executionDuration := none
  number := none
  header := fresh 2048

/-- `char program[2048]` -/
def uninitialised : Buffer Char := fresh 2048

/-- The answer that ends the `do … while`: `ret`, and `program`. -/
def upload3 (answer : Except EW { data : List Char // data.length ≤ 2047 }) :
    Except Fault (Except EW Unit × Buffer Char) := do
  match answer with
  | .error ret => return (.error ret, uninitialised)
  | .ok data =>
    let program ← uninitialised.copyTo 0 data.val
    let program ← program.store data.val.length '\x00'
    return (.ok (), ← scan program)

/-- The calls of the `do … while`. -/
def uploadCalls (r : HeaderReply) : List Action :=
  List.replicate r.retries .upload3Buffer ++ [.upload3 r.upload3]

/-- `cnc_upstart` and the `do … while`: what is called, `ret`, and `program`. -/
def upload (r : HeaderReply) (programNum : Short) :
    List Action × Except Fault (Except EW Unit × Buffer Char) :=
  let start := Action.upstart programNum r.upstart
  match r.upstart with
  | .ok () => (start :: uploadCalls r, upload3 r.upload3)
  | .error .busy => (start :: uploadCalls r, upload3 r.upload3)
  | .error ret => ([start], .ok (.error ret, uninitialised))

/-- The actions, and the record they leave of `v`. -/
def getMachineProgramHeader (r : HeaderReply) (programNum : Short) (v : MachineProgram) :
    List Action × Except Fault MachineProgram :=
  let (actions, uploaded) := upload r programNum
  match uploaded with
  | .error fault => (actions, .error fault)
  | .ok (ret, program) =>
    let v := { v with executionDuration := some r.clock.tt }
    match ret with
    | .error .data =>
      (actions ++ [.sprintf .notFound], do
        let v := { v with number := some programNum }
        return { v with header := ← v.header.writeString '\x00' (headerNotFound programNum) })
    | _ =>
      match r.upend3 with
      | .error _ =>
        (actions ++ [.upend3 r.upend3, .sprintf .unreadable], do
          return { v with header := ← v.header.writeString '\x00' (headerUnreadable programNum) })
      | .ok () =>
        (actions ++ [.upend3 r.upend3, .sprintf .program], do
          let v := { v with number := some programNum }
          let text ← program.readString '\x00'
          return { v with header := ← v.header.writeString '\x00' text })

/-! ## The texts -/

theorem decimal_eq (n : Short) :
    ∃ sign : CStr, (sign = [] ∨ sign = ['-']) ∧
      decimal n = sign ++ Nat.toDigits 10 n.toInt.natAbs := by
  unfold decimal
  rw [Int.toString_eq_repr, Int.repr_eq_if]
  split
  next h =>
    refine ⟨[], Or.inl rfl, ?_⟩
    rw [Nat.toList_repr, List.nil_append, ← Int.natAbs_of_nonneg h, Int.toNat_natCast]
    rfl
  next h =>
    refine ⟨['-'], Or.inr rfl, ?_⟩
    rw [String.toList_append, Nat.toList_repr]
    have habs : (-n.toInt).toNat = n.toInt.natAbs := by omega
    rw [habs]
    rfl

theorem length_decimal (n : Short) : (decimal n).length ≤ 6 := by
  obtain ⟨sign, hsign, heq⟩ := decimal_eq n
  have hlt := n.toInt_lt
  have hle := n.le_toInt
  have hdigits : (Nat.toDigits 10 n.toInt.natAbs).length ≤ 5 :=
    (Nat.length_toDigits_le_iff (by decide) (by decide)).mpr (by omega)
  rw [heq, List.length_append]
  rcases hsign with rfl | rfl
  · rw [List.length_nil]
    omega
  · rw [List.length_singleton]
    omega

theorem nul_not_mem_decimal (n : Short) : '\x00' ∉ decimal n := by
  obtain ⟨sign, hsign, heq⟩ := decimal_eq n
  rw [heq]
  intro hmem
  rcases List.mem_append.mp hmem with hmem | hmem
  · rcases hsign with rfl | rfl
    · exact List.not_mem_nil hmem
    · exact absurd (List.mem_singleton.mp hmem) (by decide)
  · have hdigit := Nat.isDigit_of_mem_toDigits (by decide) (by decide) hmem
    exact absurd hdigit (by decide)

theorem length_scanHeader (lineCount : ℕ) (p : CStr) :
    (scanHeader lineCount p).length ≤ p.length := by
  induction p generalizing lineCount with
  | nil => exact Nat.le_refl 0
  | cons c p ih =>
    unfold scanHeader
    split
    next =>
      dsimp only
      split
      next => exact Nat.zero_le _
      next => exact Nat.succ_le_succ (ih _)
    next => exact Nat.succ_le_succ (ih _)

/-- A text that fits is stored, and read back. -/
theorem stores_text {header : Buffer Char} (h : header.length = 2048) {text : CStr}
    (hnul : '\x00' ∉ text) (hlen : text.length < 2048) :
    ∃ header', header.writeString '\x00' text = .ok header' ∧
      header'.readString '\x00' = .ok text :=
  ⟨_, writeString_cells '\x00' (h ▸ hlen), readString_cells hnul _⟩

theorem length_header : MachineProgram.malloc.header.length = 2048 := length_fresh 2048

/-- Both errors are texts that fit. -/
theorem stores_error (programNum : Short) (before after : CStr) (hbefore : '\x00' ∉ before)
    (hafter : '\x00' ∉ after) (hlen : before.length + after.length ≤ 2000) :
    ∃ header, MachineProgram.malloc.header.writeString '\x00'
        (before ++ decimal programNum ++ after) = .ok header ∧
      header.readString '\x00' = .ok (before ++ decimal programNum ++ after) := by
  have hdecimal := length_decimal programNum
  refine stores_text length_header ?_ ?_
  · intro hmem
    rcases List.mem_append.mp hmem with hmem | hmem
    · rcases List.mem_append.mp hmem with hmem | hmem
      · exact hbefore hmem
      · exact nul_not_mem_decimal programNum hmem
    · exact hafter hmem
  · rw [List.length_append, List.length_append]
    omega

theorem stores_notFound (programNum : Short) :
    ∃ header,
      MachineProgram.malloc.header.writeString '\x00' (headerNotFound programNum) = .ok header ∧
      header.readString '\x00' = .ok (headerNotFound programNum) :=
  stores_error programNum "(ERR: program ".toList " not found on cnc)".toList
    (by decide) (by decide) (by decide)

theorem stores_unreadable (programNum : Short) :
    ∃ header,
      MachineProgram.malloc.header.writeString '\x00' (headerUnreadable programNum) = .ok header ∧
      header.readString '\x00' = .ok (headerUnreadable programNum) :=
  stores_error programNum "(ERR: program ".toList " cannot be read from cnc)".toList
    (by decide) (by decide) (by decide)

/-! ## What the getter leaves -/

theorem nul_not_mem_cString (data : List Char) : '\x00' ∉ cString data := by
  intro hmem
  have hne := List.mem_takeWhile_imp hmem
  exact absurd hne (by decide)

theorem length_scanned (data : { data : List Char // data.length ≤ 2047 }) :
    (scanHeader 0 (cString data.val)).length < 2048 := by
  have hscan := length_scanHeader 0 (cString data.val)
  have hcut : (cString data.val).length ≤ data.val.length :=
    (List.takeWhile_prefix _).length_le
  have hlen := data.property
  omega

/-- What was delivered is scanned. -/
theorem upload3_ok (data : { data : List Char // data.length ≤ 2047 }) :
    ∃ program, upload3 (.ok data) = .ok (.ok (), program) ∧
      program.readString '\x00' = .ok (scanHeader 0 (cString data.val)) := by
  obtain ⟨data, hlen⟩ := data
  obtain ⟨n, hn⟩ : ∃ n, 2048 = data.length + (n + 1) := ⟨2047 - data.length, by omega⟩
  have hcopy : uninitialised.copyTo 0 data = .ok (cells data ++ none :: fresh n) := by
    have hsplit : uninitialised = [] ++ fresh data.length ++ none :: fresh n := by
      unfold uninitialised fresh
      rw [hn, ← List.replicate_append_replicate]
      rfl
    rw [hsplit]
    exact copyTo_append [] (fresh data.length) _ (length_fresh _)
  have hstore : Buffer.store (cells data ++ none :: fresh n) data.length '\x00'
      = .ok (cells data ++ some '\x00' :: fresh n) := by
    have h := store_append (cells data) none (fresh n) '\x00'
    rwa [length_cells] at h
  obtain ⟨rest, hrest⟩ : ∃ rest, cells data ++ some '\x00' :: fresh n
      = cells (cString data) ++ some '\x00' :: rest := cells_takeWhile '\x00' data (fresh n)
  obtain ⟨tail, -, hscan⟩ := scan_eq (nul_not_mem_cString data)
  refine ⟨cells (scanHeader 0 (cString data)) ++ some '\x00' :: (tail ++ rest), ?_, ?_⟩
  · simp only [upload3, hcopy, hstore, bind, Except.bind]
    rw [hrest, hscan]
    rfl
  · exact readString_cells (nul_not_mem_scanHeader 0 (nul_not_mem_cString data)) _

section
variable {r : HeaderReply} {programNum : Short}

@[simp] theorem mem_uploadCalls {a : Action} :
    a ∈ uploadCalls r ↔ (r.retries ≠ 0 ∧ a = .upload3Buffer) ∨ a = .upload3 r.upload3 := by
  rw [uploadCalls, List.mem_append, List.mem_replicate, List.mem_singleton]

/-- With a session, its own or the one that is open, the loop is run. -/
theorem upload_session (h : r.upstart = .ok () ∨ r.upstart = .error .busy) :
    upload r programNum
      = (.upstart programNum r.upstart :: uploadCalls r, upload3 r.upload3) := by
  unfold upload
  rcases h with h | h <;> rw [h]

theorem upload_refused {ret : EW} (h : r.upstart = .error ret) (hbusy : ret ≠ .busy) :
    upload r programNum
      = ([.upstart programNum (.error ret)], .ok (.error ret, uninitialised)) := by
  unfold upload
  rw [h]
  cases ret with
  | busy => exact absurd rfl hbusy
  | data => rfl
  | mode => rfl
  | other code => rfl

variable {actions : List Action} {ret : Except EW Unit} {program : Buffer Char}

theorem header_notFound (h : upload r programNum = (actions, .ok (.error .data, program))) :
    ∃ v, getMachineProgramHeader r programNum .malloc
        = (actions ++ [.sprintf .notFound], .ok v) ∧
      v.header.readString '\x00' = .ok (headerNotFound programNum) := by
  obtain ⟨header, hwrite, hread⟩ := stores_notFound programNum
  refine ⟨⟨some r.clock.tt, some programNum, header⟩, ?_, hread⟩
  simp only [getMachineProgramHeader, h, hwrite, bind, Except.bind]
  rfl

theorem header_unreadable (h : upload r programNum = (actions, .ok (ret, program)))
    (hret : ret ≠ .error .data) {code : EW} (hend : r.upend3 = .error code) :
    ∃ v, getMachineProgramHeader r programNum .malloc
        = (actions ++ [.upend3 r.upend3, .sprintf .unreadable], .ok v) ∧
      v.header.readString '\x00' = .ok (headerUnreadable programNum) := by
  obtain ⟨header, hwrite, hread⟩ := stores_unreadable programNum
  refine ⟨⟨some r.clock.tt, none, header⟩, ?_, hread⟩
  simp only [getMachineProgramHeader, h, hend, hwrite, bind, Except.bind]
  rfl

theorem header_program (h : upload r programNum = (actions, .ok (ret, program)))
    (hret : ret ≠ .error .data) (hend : r.upend3 = .ok ()) {text : CStr}
    (hread : program.readString '\x00' = .ok text) (hnul : '\x00' ∉ text)
    (hlen : text.length < 2048) :
    ∃ v, getMachineProgramHeader r programNum .malloc
        = (actions ++ [.upend3 r.upend3, .sprintf .program], .ok v) ∧
      v.header.readString '\x00' = .ok text := by
  obtain ⟨header, hwrite, hstored⟩ := stores_text length_header hnul hlen
  refine ⟨⟨some r.clock.tt, some programNum, header⟩, ?_, hstored⟩
  simp only [getMachineProgramHeader, h, hend, hread, hwrite, bind, Except.bind]
  rfl

/-- Nothing was delivered, and `program` is printed. -/
theorem header_uninitialised (h : upload r programNum = (actions, .ok (ret, uninitialised)))
    (hret : ret ≠ .error .data) (hend : r.upend3 = .ok ()) :
    (getMachineProgramHeader r programNum .malloc).2 = .error .indeterminate := by
  have hread : uninitialised.readString '\x00' = .error .indeterminate := readString_fresh 2047
  simp only [getMachineProgramHeader, h, hend, hread, bind, Except.bind]

/-- What was delivered is published, where the session is closed. -/
theorem header_delivered (hup : r.upstart = .ok () ∨ r.upstart = .error .busy)
    {data : { data : List Char // data.length ≤ 2047 }} (hdata : r.upload3 = .ok data)
    (hend : r.upend3 = .ok ()) :
    ∃ v, getMachineProgramHeader r programNum .malloc
        = (.upstart programNum r.upstart :: uploadCalls r ++
          [.upend3 r.upend3, .sprintf .program], .ok v) ∧
      v.header.readString '\x00' = .ok (scanHeader 0 (cString data.val)) := by
  obtain ⟨program, hupload, hread⟩ := upload3_ok data
  have hsession : upload r programNum = _ := upload_session hup
  rw [hdata, hupload] at hsession
  exact header_program hsession (fun h => nomatch h) hend hread
    (nul_not_mem_scanHeader 0 (nul_not_mem_cString _)) (length_scanned data)

end

/-! ## The getter on texts -/

/-- Only the answer that ends the `do … while` matters. -/
theorem upload3Loop_eq (r : HeaderReply) (retries : ℕ) :
    upload3Loop r retries = upload3Loop r 0 := by
  induction retries with
  | zero => rfl
  | succ retries ih => exact ih

/-- `ret` and `program` on texts. -/
def uploaded (r : HeaderReply) : Except EW Unit × CStr :=
  match r.upstart with
  | .ok () => upload3Loop r r.retries
  | .error .busy => upload3Loop r r.retries
  | .error ret => (.error ret, r.garbage)

/-- In memory `program` holds the same text, or nothing. -/
theorem upload_refines (r : HeaderReply) (programNum : Short) :
    ∃ actions program, upload r programNum = (actions, .ok ((uploaded r).1, program)) ∧
      (program = uninitialised ∨
        program.readString '\x00' = .ok (uploaded r).2 ∧ '\x00' ∉ (uploaded r).2 ∧
          (uploaded r).2.length < 2048) := by
  by_cases hup : r.upstart = .ok () ∨ r.upstart = .error .busy
  · have hsession : upload r programNum = _ := upload_session hup
    have huploaded : uploaded r = upload3Loop r 0 := by
      rw [← upload3Loop_eq r r.retries]
      unfold uploaded
      rcases hup with hup | hup <;> rw [hup]
    rw [huploaded, upload3Loop]
    cases hdata : r.upload3 with
    | error ret =>
      rw [hdata] at hsession
      exact ⟨_, uninitialised, hsession, Or.inl rfl⟩
    | ok data =>
      obtain ⟨program, hprogram, hread⟩ := upload3_ok data
      rw [hdata, hprogram] at hsession
      exact ⟨_, program, hsession, Or.inr ⟨hread,
        nul_not_mem_scanHeader 0 (nul_not_mem_cString _), length_scanned data⟩⟩
  · obtain ⟨hok, hbusy⟩ := not_or.mp hup
    cases hret : r.upstart with
    | ok _ => exact absurd hret hok
    | error ret =>
      have hne : ret ≠ .busy := fun h => hbusy (h ▸ hret)
      have huploaded : (uploaded r).1 = .error ret := by
        unfold uploaded
        rw [hret]
        cases ret with
        | busy => exact absurd rfl hne
        | data => rfl
        | mode => rfl
        | other code => rfl
      rw [huploaded]
      exact ⟨_, uninitialised, upload_refused hret hne, Or.inl rfl⟩

/-- **Where the call has a behaviour**, it stores what the getter on texts delivers. -/
theorem getMachineProgramHeader_refines {r : HeaderReply} {programNum : Short} {v : MachineProgram}
    (h : (getMachineProgramHeader r programNum .malloc).2 = .ok v) :
    ∃ text, v.header.readString '\x00' = .ok text ∧
      (Driver.getMachineProgramHeader r programNum).map (·.header) = some text := by
  obtain ⟨actions, program, hupload, hprogram⟩ := upload_refines r programNum
  have hdriver : Driver.getMachineProgramHeader r programNum = match (uploaded r).1 with
      | .error .data =>
        some { executionDuration := r.clock.tt, header := headerNotFound programNum }
      | _ => match r.upend3 with
        | .error _ =>
          some { executionDuration := r.clock.tt, header := headerUnreadable programNum }
        | .ok () => some { executionDuration := r.clock.tt, header := (uploaded r).2 } := rfl
  by_cases hdata : (uploaded r).1 = .error .data
  · rw [hdata] at hupload hdriver
    obtain ⟨v', hrun, hread⟩ := header_notFound hupload
    rw [hrun] at h
    exact Except.ok.inj h ▸ ⟨_, hread, by rw [hdriver]; rfl⟩
  · cases hend : r.upend3 with
    | error code =>
      obtain ⟨v', hrun, hread⟩ := header_unreadable hupload hdata hend
      rw [hrun] at h
      exact Except.ok.inj h ▸ ⟨_, hread, by simp only [hdriver, hend]; rfl⟩
    | ok _ =>
      rcases hprogram with rfl | ⟨hread, hnul, hlen⟩
      · rw [header_uninitialised hupload hdata hend] at h
        exact nomatch h
      · obtain ⟨v', hrun, hstored⟩ := header_program hupload hdata hend hread hnul hlen
        rw [hrun] at h
        exact Except.ok.inj h ▸ ⟨_, hstored, by simp only [hdriver, hend]; rfl⟩

/-- **The header in terms of lines**, for an uploaded text without NULs: the scan leaves
its first lines joined by spaces, whatever stands behind the terminator, and the call
stores them. -/
theorem header_lines (r : HeaderReply) (programNum : Short)
    (p : { data : List Char // data.length ≤ 2047 }) (hnul : '\x00' ∉ p.val) :
    ∃ k, HeaderEnd (p.val.splitOn '\n') k ∧
      (p.val.splitOn '\n').take 2 <+: (p.val.splitOn '\n').take k ∧
      '\n' ∉ joined (p.val.splitOn '\n') k ∧
      (∃ program : Buffer Char, program.readString '\x00' = .ok (joined (p.val.splitOn '\n') k) ∧
        ∀ rest, scan (cells p.val ++ some '\x00' :: rest) = .ok (program ++ rest)) ∧
      (r.upstart = .ok () ∨ r.upstart = .error .busy → r.upload3 = .ok p → r.upend3 = .ok () →
        ∃ v, (getMachineProgramHeader r programNum .malloc).2 = .ok v ∧
          v.header.readString '\x00' = .ok (joined (p.val.splitOn '\n') k)) := by
  obtain ⟨k, hk, htext⟩ := scanHeader_lines p.val
  obtain ⟨tail, -, hscan⟩ := scan_eq hnul
  have hcut : cString p.val = p.val :=
    List.takeWhile_eq_self_iff.mpr fun c hc => decide_eq_true fun h => hnul (h ▸ hc)
  refine ⟨k, hk, hk.take_two, htext ▸ newline_not_mem_scanHeader 0 _, ?_, ?_⟩
  · refine ⟨cells (scanHeader 0 p.val) ++ some '\x00' :: tail, ?_, fun rest => ?_⟩
    · rw [← htext]
      exact readString_cells (nul_not_mem_scanHeader 0 hnul) tail
    · rw [hscan, List.append_assoc]
      rfl
  · intro hup hdata hend
    obtain ⟨v, hrun, hread⟩ := header_delivered hup hdata hend
    rw [hcut, htext] at hread
    exact ⟨v, congrArg Prod.snd hrun, hread⟩

/-- A control that answers a header read. -/
def readable (data : { data : List Char // data.length ≤ 2047 }) : HeaderReply where
  clock := ⟨⟨0, 0⟩, ⟨0, 0⟩⟩
  upstart := .ok ()
  retries := 0
  upload3 := .ok data
  upend3 := .ok ()
  garbage := []

theorem header_lines_comment :
    ∃ k, HeaderEnd ("O1\n(A)\nG0".toList.splitOn '\n') k ∧
      ∃ v, (getMachineProgramHeader (readable ⟨"O1\n(A)\nG0".toList, by decide⟩) 1 .malloc).2
          = .ok v ∧
        v.header.readString '\x00' = .ok (joined ("O1\n(A)\nG0".toList.splitOn '\n') k) := by
  obtain ⟨k, hk, -, -, -, hstored⟩ := header_lines
    (readable ⟨"O1\n(A)\nG0".toList, by decide⟩) 1 ⟨"O1\n(A)\nG0".toList, by decide⟩ (by decide)
  exact ⟨k, hk, hstored (Or.inl rfl) rfl rfl⟩

/-! ## The session -/

/-- Every session that is opened is closed. -/
def Closes (actions : List Action) : Prop :=
  ∀ programNum before after, actions = before ++ .upstart programNum (.ok ()) :: after →
    ∃ answer, .upend3 answer ∈ after

/-- Where the text in `v->header` comes from: it is one of the errors, or the scan of what
was uploaded after this call opened its session, and before it closed it. -/
inductive Stored (programNum : Short) (actions : List Action) : CStr → Prop
  | notFound : .sprintf .notFound ∈ actions → Stored programNum actions (headerNotFound programNum)
  | unreadable :
      .sprintf .unreadable ∈ actions → Stored programNum actions (headerUnreadable programNum)
  | uploaded {before during after : List Action}
      {data : { data : List Char // data.length ≤ 2047 }} :
      actions = before ++ .upstart programNum (.ok ()) :: (during ++ .upload3 (.ok data) :: after) →
      (∀ answer, .upend3 answer ∉ during) → .sprintf .program ∈ after →
      Stored programNum actions (scanHeader 0 (cString data.val))

/-- A text that is not an error is of a session the call opened. -/
theorem Stored.own {programNum : Short} {actions : List Action} {text : CStr}
    (h : Stored programNum actions text) (hnotFound : .sprintf .notFound ∉ actions)
    (hunreadable : .sprintf .unreadable ∉ actions) : .upstart programNum (.ok ()) ∈ actions := by
  cases h with
  | notFound hmem => exact absurd hmem hnotFound
  | unreadable hmem => exact absurd hmem hunreadable
  | uploaded hactions _ _ => exact hactions ▸ List.mem_append_cons_self

/-- A call that closes what it opened, and stores no text of another session. -/
structure KeepsDiscipline (programNum : Short) (run : List Action × Except Fault MachineProgram) :
    Prop where
  closes : Closes run.1
  stores : ∃ v text, run.2 = .ok v ∧ v.header.readString '\x00' = .ok text ∧
    Stored programNum run.1 text

/-- The answers it takes. Where a session was opened, an upload that fails with `EW_DATA`
leaves it open. Any other failure falls through to `cnc_upend3`, and `program` is printed
if that succeeds. -/
def Sound (r : HeaderReply) : Prop :=
  match r.upstart, r.upload3 with
  | .ok (), .ok _ => True
  | .ok (), .error .data => False
  | .error .data, _ => True
  | .error .busy, .error .data => True
  | _, _ => r.upend3 ≠ .ok ()

/-- Only the first action opens a session. -/
theorem closes_cons {first : Action} {rest : List Action}
    (hno : ∀ programNum, .upstart programNum (.ok ()) ∉ rest) :
    Closes (first :: rest) ↔
      (∀ programNum, first = .upstart programNum (.ok ()) → ∃ answer, .upend3 answer ∈ rest) := by
  constructor
  · rintro h programNum rfl
    exact h programNum [] rest rfl
  · intro h programNum before after hactions
    cases before with
    | nil =>
      obtain ⟨rfl, rfl⟩ := List.cons.inj hactions
      exact h programNum rfl
    | cons _ before =>
      obtain ⟨rfl, rfl⟩ := List.cons.inj hactions
      exact absurd List.mem_append_cons_self (hno programNum)

/-- Where the text is as it should be, the session is all that is left. -/
theorem keepsDiscipline_iff_closes {programNum : Short} {actions : List Action}
    {v : MachineProgram} {text : CStr} (hread : v.header.readString '\x00' = .ok text)
    (hstored : Stored programNum actions text) :
    KeepsDiscipline programNum (actions, .ok v) ↔ Closes actions :=
  ⟨fun h => h.closes, fun h => ⟨h, v, text, rfl, hread, hstored⟩⟩

section
variable {r : HeaderReply} {programNum : Short}

/-- No session: an error is stored, or `program` is printed uninitialised. -/
theorem keepsDiscipline_refused {ret : EW} (hup : r.upstart = .error ret) (hbusy : ret ≠ .busy) :
    KeepsDiscipline programNum (getMachineProgramHeader r programNum .malloc) ↔
      ret = .data ∨ r.upend3 ≠ .ok () := by
  have hupload : upload r programNum = _ := upload_refused hup hbusy
  by_cases hdata : ret = .data
  · subst hdata
    obtain ⟨v, hrun, hread⟩ := header_notFound hupload
    rw [hrun, keepsDiscipline_iff_closes hread (.notFound (by simp))]
    refine iff_of_true ((closes_cons (by simp)).mpr ?_) (Or.inl rfl)
    exact fun _ h => nomatch h
  · have hret : (.error ret : Except EW Unit) ≠ .error .data := fun h => hdata (Except.error.inj h)
    cases hend : r.upend3 with
    | error code =>
      obtain ⟨v, hrun, hread⟩ := header_unreadable hupload hret hend
      rw [hrun, keepsDiscipline_iff_closes hread (.unreadable (by simp))]
      refine iff_of_true ((closes_cons (by simp)).mpr ?_) (Or.inr (fun h => nomatch h))
      exact fun _ h => nomatch h
    | ok _ =>
      refine iff_of_false ?_ (by simp [hdata])
      intro h
      obtain ⟨-, v, text, hrun, -⟩ := h
      rw [header_uninitialised hupload hret hend] at hrun
      exact nomatch hrun

/-- A session, and nothing delivered. -/
theorem keepsDiscipline_failed (hup : r.upstart = .ok () ∨ r.upstart = .error .busy) {ret : EW}
    (hret : r.upload3 = .error ret) :
    KeepsDiscipline programNum (getMachineProgramHeader r programNum .malloc) ↔
      if ret = .data then r.upstart ≠ .ok () else r.upend3 ≠ .ok () := by
  have hupload : upload r programNum = _ := upload_session hup
  rw [hret] at hupload
  by_cases hdata : ret = .data
  · subst hdata
    obtain ⟨v, hrun, hread⟩ := header_notFound hupload
    rw [if_pos rfl, hrun, keepsDiscipline_iff_closes hread (.notFound (by simp)), List.cons_append,
      closes_cons (by simp)]
    constructor
    · intro h hok
      obtain ⟨answer, hmem⟩ := h programNum (by rw [hok])
      simp at hmem
    · intro hne n h
      exact absurd (Action.upstart.inj h).2 hne
  · have hne : (.error ret : Except EW Unit) ≠ .error .data := fun h => hdata (Except.error.inj h)
    rw [if_neg hdata]
    cases hend : r.upend3 with
    | error code =>
      obtain ⟨v, hrun, hread⟩ := header_unreadable hupload hne hend
      rw [hrun, keepsDiscipline_iff_closes hread (.unreadable (by simp)), List.cons_append]
      refine iff_of_true ((closes_cons (by simp)).mpr ?_) (fun h => nomatch h)
      exact fun _ _ => ⟨r.upend3, by simp⟩
    | ok _ =>
      refine iff_of_false ?_ (fun h => h rfl)
      intro h
      obtain ⟨-, v, text, hrun, -⟩ := h
      rw [header_uninitialised hupload hne hend] at hrun
      exact nomatch hrun

/-- What its own session delivers is stored, or the error of a session that does not
close. -/
theorem keepsDiscipline_own (hup : r.upstart = .ok ())
    {data : { data : List Char // data.length ≤ 2047 }} (hdata : r.upload3 = .ok data) :
    KeepsDiscipline programNum (getMachineProgramHeader r programNum .malloc) := by
  cases hend : r.upend3 with
  | error code =>
    obtain ⟨program, hupload, -⟩ := upload3_ok data
    have hsession : upload r programNum = _ := upload_session (Or.inl hup)
    rw [hdata, hupload] at hsession
    obtain ⟨v, hrun, hread⟩ := header_unreadable hsession (fun h => nomatch h) hend
    rw [hrun, keepsDiscipline_iff_closes hread (.unreadable (by simp)), List.cons_append,
      closes_cons (by simp)]
    exact fun _ _ => ⟨r.upend3, by simp⟩
  | ok _ =>
    obtain ⟨v, hrun, hread⟩ := header_delivered (Or.inl hup) hdata hend
    have hactions : .upstart programNum r.upstart :: uploadCalls r ++
        [.upend3 r.upend3, .sprintf .program]
          = [] ++ .upstart programNum (.ok ()) :: (List.replicate r.retries .upload3Buffer ++
            .upload3 (.ok data) :: [.upend3 r.upend3, .sprintf .program]) := by
      rw [uploadCalls, hup, hdata]
      simp
    have hstored := Stored.uploaded hactions (by simp) (by simp)
    rw [hrun, keepsDiscipline_iff_closes hread hstored, List.cons_append, closes_cons (by simp)]
    exact fun _ _ => ⟨r.upend3, by simp⟩

/-- What an open session delivers is not to be stored. -/
theorem keepsDiscipline_foreign (hup : r.upstart = .error .busy)
    {data : { data : List Char // data.length ≤ 2047 }} (hdata : r.upload3 = .ok data) :
    KeepsDiscipline programNum (getMachineProgramHeader r programNum .malloc) ↔
      r.upend3 ≠ .ok () := by
  cases hend : r.upend3 with
  | error code =>
    obtain ⟨program, hupload, -⟩ := upload3_ok data
    have hsession : upload r programNum = _ := upload_session (Or.inr hup)
    rw [hdata, hupload] at hsession
    obtain ⟨v, hrun, hread⟩ := header_unreadable hsession (fun h => nomatch h) hend
    rw [hrun, keepsDiscipline_iff_closes hread (.unreadable (by simp)), List.cons_append,
      closes_cons (by simp), hup]
    refine iff_of_true ?_ (fun h => nomatch h)
    exact fun _ h => nomatch h
  | ok _ =>
    obtain ⟨v, hrun, hread⟩ := header_delivered (Or.inr hup) hdata hend
    rw [hrun, hup]
    refine iff_of_false ?_ (fun h => h rfl)
    intro h
    obtain ⟨-, v', text, -, -, hstored⟩ := h
    have hown := hstored.own (by simp) (by simp)
    simp at hown

end

/-- **Which answers leave no session open and publish nothing foreign.** -/
theorem keepsDiscipline_iff (r : HeaderReply) (programNum : Short) :
    KeepsDiscipline programNum (getMachineProgramHeader r programNum .malloc) ↔ Sound r := by
  unfold Sound
  cases hup : r.upstart with
  | ok _ =>
    cases hdata : r.upload3 with
    | ok data => exact iff_of_true (keepsDiscipline_own hup hdata) trivial
    | error ret =>
      rw [keepsDiscipline_failed (Or.inl hup) hdata, hup]
      cases ret <;> simp
  | error code =>
    by_cases hbusy : code = .busy
    · subst hbusy
      cases hdata : r.upload3 with
      | ok data => exact keepsDiscipline_foreign hup hdata
      | error ret =>
        rw [keepsDiscipline_failed (Or.inr hup) hdata, hup]
        cases ret <;> simp
    · rw [keepsDiscipline_refused hup hbusy]
      cases code <;> simp at hbusy ⊢

/-- A program that is not there, in a session that was opened. -/
def notThere : HeaderReply where
  clock := ⟨⟨0, 0⟩, ⟨0, 0⟩⟩
  upstart := .ok ()
  retries := 0
  upload3 := .error .data
  upend3 := .ok ()
  garbage := []

/-- The session is left open. -/
theorem notThere_not_closed :
    ¬KeepsDiscipline 7 (getMachineProgramHeader notThere 7 .malloc) := by
  intro h
  obtain ⟨answer, hmem⟩ := h.closes 7 [] _ rfl
  simp [uploadCalls, notThere] at hmem

end FanucDriver.Driver.Memory
