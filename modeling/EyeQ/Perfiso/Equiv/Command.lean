import EyeQ.Dev.Equiv.Setup
import EyeQ.Perfiso.Config
import EyeQ.Perfiso.Equiv.Stats
import EyeQ.Scanf.Print
import EyeQ.Sysfs.Equiv.ClassName
import EyeQ.Sysfs.Equiv.Truth

/-!
# What a command of `perfiso.py` does

`perfiso.py` writes commands of words with single blanks in between, and names classes as
`iso_class_show` does.  The handlers read such a command as it is meant (`isoClassParse_show`,
`scanArgs_line`); so if the mutex is free and the device is there, a write does what the device does
with the command (`attempt_write`).
-/

namespace EyeQ

variable {C : Type} {plat : Platform} {p : Params}

namespace Perfiso

open Text Stats Scanf Sysfs

/-! ### Names of classes -/

theorem length_isoClassShow_le (klass : UInt32) : (isoClassShow plat klass).length ≤ 15 := by
  obtain ⟨a, b, c, d, -, hquad, ha, hb, hc, hd⟩ := exists_quad (plat.ntohl klass)
  have ha' := length_dec_le ha
  have hb' := length_dec_le hb
  have hc' := length_dec_le hc
  have hd' := length_dec_le hd
  rw [isoClassShow, hquad]
  simp only [List.length_append, List.length_cons]
  omega

/-! ### Words -/

/-- A character that the shell takes as it is. -/
def isLiteral (c : Char) : Bool := c.isAlphanum || c ∈ "._-/:@%+".toList

/-- A word that the shell takes as it is. -/
structure Literal (w : List Char) : Prop where
  ne : w ≠ []
  literal : ∀ c ∈ w, isLiteral c = true

instance (w : List Char) : Decidable (Literal w) :=
  haveI : Decidable (∀ c ∈ w, isLiteral c = true) := List.decidableBAll _ w
  decidable_of_iff (w ≠ [] ∧ ∀ c ∈ w, isLiteral c = true) ⟨fun h => ⟨h.1, h.2⟩, fun h => ⟨h.1, h.2⟩⟩

theorem not_isLiteral_of_isSpace {c : Char} (h : Scanf.isSpace c = true) : isLiteral c = false := by
  rw [Scanf.isSpace, decide_eq_true_eq] at h
  fin_cases h
  all_goals decide

theorem Literal.word {w : List Char} (h : Literal w) : Word w := by
  refine ⟨h.ne, fun c hc => ?_⟩
  by_contra hspace
  rw [Bool.not_eq_false] at hspace
  exact absurd (h.literal c hc) (by simp [not_isLiteral_of_isSpace hspace])

theorem literal_hexDigits : Literal hexDigits := by decide

theorem literal_dec (n : ℕ) : Literal (dec n) :=
  ⟨dec_ne_nil n, forall_mem_dec literal_hexDigits.literal n⟩

theorem literal_isoClassShow (klass : UInt32) : Literal (isoClassShow plat klass) := by
  obtain ⟨a, b, c, d, -, hquad, -⟩ := exists_quad (plat.ntohl klass)
  have hdot : isLiteral '.' = true := by decide
  refine ⟨?_, ?_⟩
  · rw [isoClassShow, hquad]
    simp [dec_ne_nil]
  · intro x hx
    rw [isoClassShow, hquad] at hx
    simp only [List.mem_append, List.mem_cons] at hx
    rcases hx with hx | rfl | hx | rfl | hx | rfl | hx
    · exact (literal_dec _).literal x hx
    · exact hdot
    · exact (literal_dec _).literal x hx
    · exact hdot
    · exact (literal_dec _).literal x hx
    · exact hdot
    · exact (literal_dec _).literal x hx

end Perfiso

/-! ### Commands -/

namespace Setup.Command

open Perfiso Scanf Stats Text

/-- A command as it is read: its weight is cut to an `int`. -/
def cut : Command → Command
  | .setVqWeight klass weight => .setVqWeight klass (s32 weight)
  | .setTxcWeight klass weight => .setTxcWeight klass (s32 weight)
  | c => c

/-- What the handler of a command does with the device. -/
def op (env : Env) : Command → Dev.Op
  | .createVq klass => .createVq env.now env.kmalloc env.percpu env.stale klass
  | .setVqWeight klass weight => .setVqWeight klass weight
  | .createTxc klass => .createTxc env.now env.kmalloc env.rounds klass
  | .setTxcWeight klass weight => .setTxcWeight klass weight
  | .assocTxcVq txclass vqclass => .assocTxcVq txclass vqclass

/-- The file that a command is written to. -/
def file : Command → List Char
  | .createVq _ => isoSysfs ++ "/create_vq".toList
  | .setVqWeight _ _ => isoSysfs ++ "/set_vq_weight".toList
  | .createTxc _ => isoSysfs ++ "/create_txc".toList
  | .setTxcWeight _ _ => isoSysfs ++ "/set_txc_weight".toList
  | .assocTxcVq _ _ => isoSysfs ++ "/assoc_txc_vq".toList

/-- The words of a command, after `dev`. -/
def args (plat : Platform) (name : List Char) : Command → List (List Char)
  | .createVq klass => [name, isoClassShow plat klass]
  | .setVqWeight klass weight => [name, isoClassShow plat klass, "weight".toList, decInt weight]
  | .createTxc klass => [name, isoClassShow plat klass]
  | .setTxcWeight klass weight => [name, isoClassShow plat klass, "weight".toList, decInt weight]
  | .assocTxcVq txclass vqclass =>
    [name, "associate".toList, "txc".toList, isoClassShow plat txclass, "vq".toList,
      isoClassShow plat vqclass]

/-- What `echo` writes. -/
def text (plat : Platform) (name : List Char) (c : Command) : List Char :=
  line ("dev".toList :: c.args plat name) ++ ['\n']

/-- The write for a command. -/
def write (env : Env) (val : List Char) : Command → Sysfs.Write
  | .createVq _ => .createVq env.now env.kmalloc env.percpu env.stale env.stack val
  | .setVqWeight _ _ => .setVqWeight val
  | .createTxc _ => .createTxc env.now env.kmalloc env.rounds env.stack val
  | .setTxcWeight _ _ => .setTxcWeight val
  | .assocTxcVq _ _ => .assocTxcVq val

end Setup.Command

namespace Perfiso

open Setup (Command)

open Text Stats Scanf Sysfs

theorem op_does {env : Env} (h : env.kmalloc ≠ .fail) (c : Command) : (c.op env).Does c := by
  cases c with
  | createVq klass => exact .createVq env.now h env.percpu env.stale klass
  | setVqWeight klass weight => exact .setVqWeight klass weight
  | createTxc klass => exact .createTxc env.now h env.rounds klass
  | setTxcWeight klass weight => exact .setTxcWeight klass weight
  | assocTxcVq txclass vqclass => exact .assocTxcVq txclass vqclass

theorem literal_decInt (z : ℤ) : Literal (decInt z) :=
  ⟨decInt_ne_nil z, forall_mem_decInt literal_hexDigits.literal (by decide) z⟩

theorem literal_args {name : List Char} (hname : Literal name) (c : Command) :
    ∀ w ∈ c.args plat name, Literal w := by
  have hclass : ∀ klass, Literal (isoClassShow plat klass) := literal_isoClassShow
  have hweight : Literal "weight".toList := by decide
  have hassociate : Literal "associate".toList := by decide
  have htxc : Literal "txc".toList := by decide
  have hvq : Literal "vq".toList := by decide
  cases c with
  | createVq | createTxc =>
    simp only [Command.args, List.forall_mem_cons, hname, hclass, List.not_mem_nil, true_and,
      false_imp_iff, implies_true]
  | setVqWeight | setTxcWeight =>
    simp only [Command.args, List.forall_mem_cons, hname, hclass, hweight, literal_decInt,
      List.not_mem_nil, true_and, false_imp_iff, implies_true]
  | assocTxcVq =>
    simp only [Command.args, List.forall_mem_cons, hname, hclass, hassociate, htxc,
      hvq, List.not_mem_nil, true_and, false_imp_iff, implies_true]

theorem words_args {name : List Char} (hname : Literal name) (c : Command) :
    ∀ w ∈ "dev".toList :: c.args plat name, Word w := by
  have hdev : Literal "dev".toList := by decide
  exact List.forall_mem_cons.mpr ⟨hdev.word, fun w hw => (literal_args hname c w hw).word⟩

/-- What a handler reads of a command, if the words fit its buffers. -/
theorem scanArgs_line {fmt : String} {ps : List Piece}
    (hfmt : format fmt.toList = (directives ps).tail) {ws : List (List Char)}
    (hws : ∀ w ∈ ws, Word w) (hne : ws ≠ []) {values : List Value}
    (h : matchWords ps ws = some values) (hfits : (values.map Value.cut).all Value.fits = true) :
    scanArgs fmt (line ws ++ ['\n']) = .ok (values.map Value.cut) := by
  unfold scanArgs
  dsimp only
  rw [hfmt, sscanf_line hws hne h, if_pos hfits]

/-! ### The handlers -/

variable {s : Sysfs C} {name : List Char} {i : ℕ} {n : Netdev C}

/-- The module with another device in place of `n`. -/
def setDev (s : Sysfs C) (i : ℕ) (n : Netdev C) (dev : Dev C) : Sysfs C :=
  { s with netdevs := s.netdevs.set i { n with dev := dev } }

/-- A handler that has read the name of a device and a command. -/
theorem locked_onDev (hmutex : s.configMutex = false)
    (hdev : s.enabledDev name = some (i, n)) (missing : ℤ) (o : Dev.Op) :
    s.locked (fun s => s.onDev plat p name missing o) =
      (fun r : ℤ × Dev C => (r.1, setDev s i n r.2)) <$>
        (n.dev.exec plat p o).mapError Stop.halt := by
  have hdev' : Sysfs.enabledDev name { s with configMutex := true } = some (i, n) := hdev
  have hup : ∀ netdevs : List (Netdev C),
      Sysfs.up { configMutex := true, netdevs := netdevs } = { s with netdevs := netdevs } := by
    intro netdevs
    rw [Sysfs.up, hmutex]
  unfold Sysfs.locked
  rw [down_of_free hmutex]
  show (((Sysfs.onDev plat p name missing o { s with configMutex := true }).mapError Stop.halt).bind
    fun r => .ok (r.1, r.2.up)) = _
  rw [onDev_eq, hdev']
  dsimp only
  cases n.dev.exec plat p o with
  | error e => rfl
  | ok r => exact congrArg (fun s => Except.ok (r.1, s)) (hup _)

/-- A write that does with the device what `o` does succeeds if `o` does. -/
theorem attempt_of_exec {w : Sysfs.Write} {o : Dev.Op} {f : ℤ → ℤ} (hf : ∀ z, f z = 0 ↔ z = 0)
    (h : s.exec plat p w =
      (fun r : ℤ × Dev C => (f r.1, setDev s i n r.2)) <$>
        (n.dev.exec plat p o).mapError Stop.halt) :
    s.attempt plat p w = (n.dev.attempt plat p o).map (setDev s i n) := by
  unfold Sysfs.attempt Dev.attempt
  rw [h]
  cases n.dev.exec plat p o with
  | error e => rfl
  | ok r =>
    show (if f r.1 = 0 then some (setDev s i n r.2) else none) =
      Option.map (setDev s i n) (if r.1 = 0 then _ else _)
    simp only [hf]
    split_ifs <;> rfl

/-- The names fit the buffers. -/
theorem fits_of_length {w : List Char} (h : w.length ≤ 15) : (Value.str w).fits = true :=
  decide_eq_true (show w.length < 128 by omega)

theorem fits_isoClassShow (klass : UInt32) : (Value.str (isoClassShow plat klass)).fits = true :=
  fits_of_length (length_isoClassShow_le klass)

theorem scanArgs_create (hname : Literal name) (hlen : name.length ≤ 15) (klass : UInt32) :
    scanArgs "dev %s %s" (truncated
      (line ["dev".toList, name, isoClassShow plat klass] ++ ['\n'])) =
      .ok [.str name, .str (isoClassShow plat klass)] := by
  have hshort : truncated (line ["dev".toList, name, isoClassShow plat klass] ++ ['\n']) =
      line ["dev".toList, name, isoClassShow plat klass] ++ ['\n'] := by
    refine List.take_of_length_le ?_
    have hclass := @length_isoClassShow_le plat klass
    have hdev : "dev".toList.length = 3 := rfl
    rw [line_cons (by simp), line_cons (by simp), line_singleton]
    simp only [List.length_append, List.length_cons, List.length_nil, hdev, buffSize]
    omega
  rw [hshort]
  refine @scanArgs_line "dev %s %s" [.word "dev".toList, .str, .str] rfl _ ?_ (by simp)
    [.str name, .str _] ?_ ?_
  · exact words_args hname (.createVq klass)
  · simp [matchWords]
  · simp [Value.cut, fits_of_length hlen, fits_isoClassShow]

/-- The handlers that create something. -/
theorem locked_create (hntohl : Function.Involutive plat.ntohl) (hname : Literal name)
    (hlen : name.length ≤ 15) (hmutex : s.configMutex = false)
    (hdev : s.enabledDev name = some (i, n)) (stack : List Char × List Char) (o : UInt32 → Dev.Op)
    (klass : UInt32) :
    (s.locked fun s => do
      let values ← scanArgs "dev %s %s"
        (truncated (line ["dev".toList, name, isoClassShow plat klass] ++ ['\n']))
      s.onDev plat p (buffer stack.1 values[0]?) (-einval)
        (o (isoClassParse plat (buffer stack.2 values[1]?)))) =
      (fun r : ℤ × Dev C => (r.1, setDev s i n r.2)) <$>
        (n.dev.exec plat p (o klass)).mapError Stop.halt := by
  rw [scanArgs_create hname hlen]
  show s.locked (fun s => s.onDev plat p name (-einval)
    (o (isoClassParse plat (isoClassShow plat klass)))) = _
  rw [isoClassParse_show hntohl, locked_onDev hmutex hdev]

theorem created_of_locked {o : Dev.Op} {body : Sysfs C → Except Halt (ℤ × Sysfs C)}
    (h : s.locked body = (fun r : ℤ × Dev C => (r.1, setDev s i n r.2)) <$>
      (n.dev.exec plat p o).mapError Stop.halt) :
    created <$> s.locked body = (fun r : ℤ × Dev C => (if r.1 = 0 then 0 else -einval,
      setDev s i n r.2)) <$>
      (n.dev.exec plat p o).mapError Stop.halt := by
  rw [h]
  cases n.dev.exec plat p o <;> rfl

theorem lookup_file (env : Env) (val : List Char) (c : Command) :
    (sysfsFiles env val).lookup c.file = some (c.write env val) := by
  cases c <;> rfl

/-- A handler for a device, a class and a number reads a command of these words. -/
theorem setNumber_line (hntohl : Function.Involutive plat.ntohl) (hname : Literal name)
    (hlen : name.length ≤ 15) (hmutex : s.configMutex = false)
    (hdev : s.enabledDev name = some (i, n)) (fmt : String) {word : List Char}
    (hfmt : format fmt.toList = (directives [.word "dev".toList, .str, .str, .word word,
      .int]).tail) (hword : Literal word) (o : UInt32 → ℤ → Dev.Op) (klass : UInt32) (z : ℤ) :
    s.setNumber plat p fmt o
        (line ["dev".toList, name, isoClassShow plat klass, word, decInt z] ++ ['\n']) =
      (fun r : ℤ × Dev C => (r.1, setDev s i n r.2)) <$>
        (n.dev.exec plat p (o klass (s32 z))).mapError Stop.halt := by
  have hdev' : Literal "dev".toList := by decide
  have hwords : ∀ w ∈ ["dev".toList, name, isoClassShow plat klass, word, decInt z], Word w := by
    simp only [List.forall_mem_cons, hdev'.word, hname.word,
      (literal_isoClassShow klass).word, hword.word, (literal_decInt z).word, List.not_mem_nil,
      true_and, false_imp_iff, implies_true]
  have hscan : scanArgs fmt (line ["dev".toList, name, isoClassShow plat klass, word,
      decInt z] ++ ['\n']) =
      .ok [.str name, .str (isoClassShow plat klass), .int (s32 z)] := by
    refine @scanArgs_line fmt _ hfmt _ hwords (by simp) [.str name, .str _, .int z] ?_ ?_
    · simp [matchWords, numeral_decInt]
    · have hint : (Value.int (s32 z)).fits = true := rfl
      simp [Value.cut, fits_of_length hlen, fits_isoClassShow, hint]
  unfold Sysfs.setNumber
  rw [hscan]
  show s.locked (fun s => s.onDev plat p name (-einval)
    (o (isoClassParse plat (isoClassShow plat klass)) (s32 z))) = _
  rw [isoClassParse_show hntohl, locked_onDev hmutex hdev]

theorem isoSysAssocTxcVq_text (hntohl : Function.Involutive plat.ntohl) (hname : Literal name)
    (hlen : name.length ≤ 15) (hmutex : s.configMutex = false)
    (hdev : s.enabledDev name = some (i, n)) (txclass vqclass : UInt32) :
    s.isoSysAssocTxcVq plat p (Command.text plat name (.assocTxcVq txclass vqclass)) =
      (fun r : ℤ × Dev C => (r.1, setDev s i n r.2)) <$>
        (n.dev.exec plat p (.assocTxcVq txclass vqclass)).mapError Stop.halt := by
  have hscan : scanArgs "dev %s associate txc %s vq %s"
      (Command.text plat name (.assocTxcVq txclass vqclass)) =
      .ok [.str name, .str (isoClassShow plat txclass), .str (isoClassShow plat vqclass)] := by
    refine @scanArgs_line "dev %s associate txc %s vq %s" [.word "dev".toList, .str,
      .word "associate".toList, .word "txc".toList, .str, .word "vq".toList, .str] rfl _
        (words_args hname _) (by simp)
      [.str name, .str _, .str _] ?_ ?_
    · simp [matchWords, Command.args]
    · simp [Value.cut, fits_of_length hlen, fits_isoClassShow]
  unfold Sysfs.isoSysAssocTxcVq
  rw [hscan]
  show s.locked (fun s => s.onDev plat p name 0
    (.assocTxcVq (isoClassParse plat (isoClassShow plat txclass))
      (isoClassParse plat (isoClassShow plat vqclass)))) = _
  rw [isoClassParse_show hntohl, isoClassParse_show hntohl, locked_onDev hmutex hdev]

/-- A command that is written does with the device what the device does with it. -/
theorem attempt_write (hntohl : Function.Involutive plat.ntohl) (hname : Literal name)
    (hlen : name.length ≤ 15) (hmutex : s.configMutex = false)
    (hdev : s.enabledDev name = some (i, n)) (env : Env) (c : Command) :
    s.attempt plat p (c.write env (c.text plat name)) =
      (n.dev.attempt plat p (c.cut.op env)).map (setDev s i n) := by
  have hcreated : ∀ z : ℤ, (if z = 0 then 0 else -einval) = 0 ↔ z = 0 := by
    intro z
    split_ifs with hz
    · simp [hz]
    · simp [hz, einval]
  cases c with
  | createVq klass =>
    exact attempt_of_exec hcreated
      (created_of_locked (locked_create hntohl hname hlen hmutex hdev env.stack
        (.createVq env.now env.kmalloc env.percpu env.stale) klass))
  | createTxc klass =>
    exact attempt_of_exec hcreated
      (created_of_locked (locked_create hntohl hname hlen hmutex hdev env.stack
        (.createTxc env.now env.kmalloc env.rounds) klass))
  | setVqWeight klass weight =>
    exact attempt_of_exec (fun _ => Iff.rfl)
      (setNumber_line hntohl hname hlen hmutex hdev "dev %s %s weight %d" rfl
        (by decide) .setVqWeight klass weight)
  | setTxcWeight klass weight =>
    exact attempt_of_exec (fun _ => Iff.rfl)
      (setNumber_line hntohl hname hlen hmutex hdev "dev %s %s weight %d" rfl
        (by decide) .setTxcWeight klass weight)
  | assocTxcVq txclass vqclass =>
    exact attempt_of_exec (fun _ => Iff.rfl)
      (isoSysAssocTxcVq_text hntohl hname hlen hmutex hdev txclass vqclass)

end Perfiso

end EyeQ
