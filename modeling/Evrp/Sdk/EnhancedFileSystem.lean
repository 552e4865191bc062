import Mathlib.Data.List.Basic

/-!
# Whole texts through partial system calls

The output loop repeats the system call until nothing remains: an interrupted
call is repeated, a call that reports an error or writes nothing ends it. The
answers of the system calls are part of the file, so a run consumes them in
order; when the given answers are used up, every further call writes all it
is asked to. The input loop is its counterpart: it collects what the calls
deliver until one of them finds the end of the file, so a text that was written
is read back whatever the sizes of the pieces are.
-/

namespace Evrp

/-- The answer of one write system call. -/
inductive WriteAnswer where
  | wrote (n : ℕ)
  | eintr
  | error
  deriving DecidableEq, Repr

/-- An output descriptor: the text that has arrived and the answers still to come. -/
structure OutputFile where
  text : List Char
  answers : List WriteAnswer
  deriving DecidableEq, Repr

/-- The write loop on the remaining characters: success, written characters and
remaining answers. -/
def writeLoop : List WriteAnswer → List Char → Bool × List Char × List WriteAnswer
  | answers, [] => (true, [], answers)
  | [], data => (true, data, [])
  | .eintr :: answers, c :: cs => writeLoop answers (c :: cs)
  | .error :: answers, _ :: _ => (false, [], answers)
  | .wrote 0 :: answers, _ :: _ => (false, [], answers)
  | .wrote (n + 1) :: answers, c :: cs =>
    let rest := writeLoop answers (cs.drop n)
    (rest.1, (c :: cs.take n) ++ rest.2.1, rest.2.2)

/-- Write a text to a descriptor. -/
def writeOutput (f : OutputFile) (data : List Char) : Bool × OutputFile :=
  let r := writeLoop f.answers data
  (r.1, ⟨f.text ++ r.2.1, r.2.2⟩)

/-- Only the beginning of the data is ever written, and all of it on success. -/
theorem writeLoop_spec (answers : List WriteAnswer) (data : List Char) :
    (writeLoop answers data).2.1 <+: data ∧
      ((writeLoop answers data).1 = true → (writeLoop answers data).2.1 = data) := by
  fun_induction writeLoop answers data with
  | case1 answers => exact ⟨List.prefix_rfl, fun _ => rfl⟩
  | case2 data hne => exact ⟨List.prefix_rfl, fun _ => rfl⟩
  | case3 c cs answers ih => exact ih
  | case4 answers c cs => exact ⟨List.nil_prefix, nofun⟩
  | case5 answers c cs => exact ⟨List.nil_prefix, nofun⟩
  | case6 n answers c cs rest ih =>
    obtain ⟨hbegin, hall⟩ := ih
    constructor
    · have hcs : c :: cs = (c :: cs.take n) ++ cs.drop n := by
        rw [List.cons_append, List.take_append_drop]
      rw [hcs]
      exact (List.prefix_append_right_inj _).mpr hbegin
    · intro hok
      rw [show rest.2.1 = cs.drop n from hall hok, List.cons_append, List.take_append_drop]

/-- A successful write appends exactly the data. -/
theorem writeOutput_text {f : OutputFile} {data : List Char}
    (h : (writeOutput f data).1 = true) : (writeOutput f data).2.text = f.text ++ data := by
  have hall := (writeLoop_spec f.answers data).2 h
  rw [writeOutput, hall]

/-- Without a failing answer in store every write succeeds and leaves none. -/
theorem writeOutput_of_answers_nil {f : OutputFile} (h : f.answers = []) (data : List Char) :
    (writeOutput f data).1 = true ∧ (writeOutput f data).2.answers = [] := by
  rw [writeOutput, h]
  cases data with
  | nil => exact ⟨rfl, rfl⟩
  | cons c cs => exact ⟨rfl, rfl⟩

/-- The answer of one read system call; before the end of the file it delivers at least one
character. -/
inductive ReadAnswer where
  | read (more : ℕ)
  | eintr
  | error
  deriving DecidableEq, Repr

/-- An input descriptor: the text from its position on and the answers still to come. -/
structure InputFile where
  text : List Char
  answers : List ReadAnswer
  deriving DecidableEq, Repr

/-- The size of the buffer of one read. -/
def readBufferSize : ℕ := 8192

/-- The read loop on the rest of the file: success and the characters read. When the given
answers are used up, every further call fills its buffer. -/
def readLoop : List ReadAnswer → List Char → Bool × List Char
  | [], rest => (true, rest)
  | .eintr :: answers, rest => readLoop answers rest
  | .error :: _, _ => (false, [])
  | .read _ :: _, [] => (true, [])
  | .read more :: answers, c :: cs =>
    let n := min more (readBufferSize - 1)
    let rest := readLoop answers (cs.drop n)
    (rest.1, (c :: cs.take n) ++ rest.2)

/-- Read a descriptor to its end. -/
def readInputAll (f : InputFile) : Bool × List Char := readLoop f.answers f.text

/-- Only the beginning of the file is ever read, and all of it on success. -/
theorem readLoop_spec (answers : List ReadAnswer) (rest : List Char) :
    (readLoop answers rest).2 <+: rest ∧
      ((readLoop answers rest).1 = true → (readLoop answers rest).2 = rest) := by
  fun_induction readLoop answers rest with
  | case1 rest => exact ⟨List.prefix_rfl, fun _ => rfl⟩
  | case2 answers rest ih => exact ih
  | case3 answers rest => exact ⟨List.nil_prefix, Bool.noConfusion⟩
  | case4 more answers => exact ⟨List.prefix_rfl, fun _ => rfl⟩
  | case5 more answers c cs n rest ih =>
    obtain ⟨hbegin, hall⟩ := ih
    have hcs : c :: cs = (c :: cs.take n) ++ cs.drop n := by
      rw [List.cons_append, List.take_append_drop]
    constructor
    · rw [hcs]
      exact (List.prefix_append_right_inj _).mpr hbegin
    · intro hok
      rw [show rest.2 = cs.drop n from hall hok, List.cons_append, List.take_append_drop]

/-- A successful read delivers the whole text. -/
theorem readInputAll_text {f : InputFile} (h : (readInputAll f).1 = true) :
    (readInputAll f).2 = f.text := (readLoop_spec f.answers f.text).2 h

/-- Only a reported error makes a read fail. -/
theorem readLoop_of_no_error {answers : List ReadAnswer} (h : ReadAnswer.error ∉ answers)
    (rest : List Char) : (readLoop answers rest).1 = true := by
  fun_induction readLoop answers rest with
  | case1 rest => rfl
  | case2 answers rest ih => exact ih (List.not_mem_of_not_mem_cons h)
  | case3 answers rest => exact absurd (List.mem_cons_self ..) h
  | case4 more answers => rfl
  | case5 more answers c cs n rest ih => exact ih (List.not_mem_of_not_mem_cons h)

/-- Without an error the whole text is read, in pieces of any size. -/
theorem readInputAll_of_no_error {f : InputFile} (h : ReadAnswer.error ∉ f.answers) :
    readInputAll f = (true, f.text) := by
  have hok : (readInputAll f).1 = true := readLoop_of_no_error h f.text
  exact Prod.ext hok (readInputAll_text hok)

end Evrp
