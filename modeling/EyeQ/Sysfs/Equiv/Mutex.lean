import EyeQ.Sysfs.Basic

/-!
# The configuration mutex

A handler that is `locked` releases the mutex whenever it returns.  `iso_sys_recompute_dev` does so
if its argument names a device: if it begins with `dev`, and something that is not blank follows
within the characters that are read (`NamesDevice`).  Otherwise it returns with the mutex taken, and
every later write to any of the files waits for it forever (`exec_fails`).

So a sequence of writes keeps the mutex free exactly if no argument of `recompute_dev` in it is
malformed (`releases_iff_wellFormed`).
-/

namespace EyeQ.Sysfs

open Machine Scanf

variable {C : Type} {plat : Platform} {p : Params} {s : Sysfs C}

/-- The argument begins with `dev` and goes on with something that is not blank. -/
def NamesDevice (val : List Char) : Prop :=
  ∃ rest, val = "dev".toList ++ rest ∧ ∃ c ∈ rest, ¬ isSpace c

/-- The write is none of `recompute_dev` with a malformed argument. -/
def Write.WellFormed : Write → Prop
  | .recomputeDev val => NamesDevice (truncated val)
  | _ => True

/-- The write does not wait for the mutex, and if it returns, the mutex is free. -/
def Releases (plat : Platform) (p : Params) (s : Sysfs C) (w : Write) : Prop :=
  Ends (fun r => r.2.configMutex = false) (· ≠ .blocked) (s.exec plat p w)

/-! ### Handlers that release the mutex -/

theorem ends_mapError {α : Type} {P : α → Prop} {x : Except Halt α} (h : ∀ a, x = .ok a → P a) :
    Ends P (· ≠ .blocked) (x.mapError Stop.halt) := by
  cases x with
  | ok a => exact h a rfl
  | error e => exact Stop.noConfusion

theorem down_of_free (hs : s.configMutex = false) :
    s.down = .ok { s with configMutex := true } := by
  rw [down, if_neg (by simp [hs])]

theorem locked_ends (hs : s.configMutex = false) (body : Sysfs C → Except Halt (ℤ × Sysfs C)) :
    Ends (fun r => r.2.configMutex = false) (· ≠ .blocked) (s.locked body) := by
  unfold locked
  rw [down_of_free hs]
  exact (ends_mapError fun _ _ => trivial).bind fun r (_ : True) => rfl

/-! ### `recompute_dev` -/

/-- What is read: a name if the argument names a device, and nothing otherwise. -/
theorem sscanf_dev (val : List Char) :
    (NamesDevice val ∧ ∃ devname, sscanf (format "dev %s".toList) val = [.str devname]) ∨
    (¬ NamesDevice val ∧ sscanf (format "dev %s".toList) val = []) := by
  have hformat : format "dev %s".toList = "dev".toList.map .char ++ [.blank, .str] := rfl
  rw [hformat]
  by_cases hdev : "dev".toList <+: val
  · obtain ⟨rest, rfl⟩ := hdev
    rw [sscanf_word, sscanf_blank_str]
    split_ifs with hblank
    · refine Or.inr ⟨?_, rfl⟩
      rintro ⟨rest', hrest, c, hc, hspace⟩
      obtain rfl := List.append_cancel_left hrest
      exact hspace (List.all_eq_true.mp hblank c hc)
    · exact Or.inl ⟨⟨rest, rfl, by simpa using hblank⟩, _, rfl⟩
  · refine Or.inr ⟨?_, sscanf_word_of_not_prefix hdev _⟩
    rintro ⟨rest, rfl, -⟩
    exact hdev (List.prefix_append _ _)

theorem scanArgs_eq_ok {fmt : String} {val : List Char} {values : List Value}
    (h : scanArgs fmt val = .ok values) : values = sscanf (format fmt.toList) val := by
  unfold scanArgs at h
  dsimp only at h
  split_ifs at h
  exact (Except.ok.inj h).symm

/-- An argument that names a device lets the mutex go. -/
theorem isoSysRecomputeDev_ends (hs : s.configMutex = false) {val : List Char}
    (hval : NamesDevice (truncated val)) :
    Ends (fun r => r.2.configMutex = false) (· ≠ .blocked) (s.isoSysRecomputeDev plat p val) := by
  have hread : Ends (fun values => ∃ devname, values = [Value.str devname]) (· ≠ .blocked)
      ((scanArgs "dev %s" (truncated val)).mapError Stop.halt) := by
    refine ends_mapError fun values hvalues => ?_
    rw [scanArgs_eq_ok hvalues]
    rcases sscanf_dev (truncated val) with ⟨-, hscan⟩ | ⟨hnot, -⟩
    · exact hscan
    · exact absurd hval hnot
  unfold isoSysRecomputeDev
  rw [down_of_free hs]
  refine hread.bind fun values hvalues => ?_
  obtain ⟨devname, rfl⟩ := hvalues
  exact (ends_mapError fun _ _ => trivial).bind fun r (_ : True) => rfl

/-- An argument that names no device leaves the mutex taken. -/
theorem isoSysRecomputeDev_malformed (hs : s.configMutex = false) {val : List Char}
    (hval : ¬ NamesDevice (truncated val)) :
    s.isoSysRecomputeDev plat p val = .ok (-einval, { s with configMutex := true }) := by
  rcases sscanf_dev (truncated val) with ⟨hnames, -⟩ | ⟨-, hscan⟩
  · exact absurd hnames hval
  · unfold isoSysRecomputeDev scanArgs
    rw [down_of_free hs, hscan]
    rfl

/-! ### Writes -/

/-- A handler that finds the mutex taken waits. -/
theorem locked_blocked (hs : s.configMutex = true) (body : Sysfs C → Except Halt (ℤ × Sysfs C)) :
    s.locked body = .error .blocked := by
  unfold locked down
  rw [if_pos hs]
  rfl

/-- While the mutex is taken, no write returns. -/
theorem exec_fails (hs : s.configMutex = true) (w : Write) : Fails (s.exec plat p w) := by
  have hlocked : ∀ body : Sysfs C → Except Halt (ℤ × Sysfs C), Fails (s.locked body) :=
    fun body => ⟨.blocked, locked_blocked hs body⟩
  have hcreated : ∀ body : Sysfs C → Except Halt (ℤ × Sysfs C),
      Fails (created <$> s.locked body) := fun body => by
    rw [locked_blocked hs body]
    exact ⟨.blocked, rfl⟩
  cases w with
  | createTxc now kmalloc rounds stack val => exact hcreated _
  | createVq now kmalloc percpu stale stack val => exact hcreated _
  | assocTxcVq val => exact (ends_true _).bind_fails fun _ _ => hlocked _
  | setTxcWeight val => exact hlocked _
  | setTxcRate val => exact hlocked _
  | setVqWeight val => exact hlocked _
  | setVqRate val => exact hlocked _
  | deleteTxc val => exact hlocked _
  | deleteVq val => exact hlocked _
  | recomputeDev val =>
    show Fails (s.isoSysRecomputeDev plat p val)
    unfold isoSysRecomputeDev down
    rw [if_pos hs]
    exact ⟨.blocked, rfl⟩

/-- A write to a free mutex releases it, unless its argument is malformed. -/
theorem releases_iff (hs : s.configMutex = false) (w : Write) :
    Releases plat p s w ↔ w.WellFormed := by
  have hlocked := locked_ends hs
  unfold Releases
  cases w with
  | createTxc now kmalloc rounds stack val => exact iff_of_true (Ends.map (hlocked _)) trivial
  | createVq now kmalloc percpu stale stack val => exact iff_of_true (Ends.map (hlocked _)) trivial
  | assocTxcVq val =>
    refine iff_of_true ?_ trivial
    exact (ends_mapError fun _ _ => trivial).bind fun values (_ : True) => hlocked _
  | setTxcWeight val => exact iff_of_true (hlocked _) trivial
  | setTxcRate val => exact iff_of_true (hlocked _) trivial
  | setVqWeight val => exact iff_of_true (hlocked _) trivial
  | setVqRate val => exact iff_of_true (hlocked _) trivial
  | deleteTxc val => exact iff_of_true (hlocked _) trivial
  | deleteVq val => exact iff_of_true (hlocked _) trivial
  | recomputeDev val =>
    constructor
    · intro hends
      by_contra hval
      have htaken := hends.of_eq_ok (isoSysRecomputeDev_malformed hs hval)
      exact Bool.noConfusion htaken
    · exact isoSysRecomputeDev_ends hs

/-- **The mutex is released.**  From a state in which the mutex is free, in a sequence of writes of
whatever strings: each write that is reached finds the mutex free and, if it returns, leaves it
free, exactly if no argument of `recompute_dev` among them is malformed. -/
theorem releases_iff_wellFormed (plat : Platform) (p : Params) (s : Sysfs C)
    (hs : s.configMutex = false) (ws : List Write) :
    GuardedE (step plat p) (Releases plat p) s ws ↔
      GuardedE (step plat p) (fun _ w => w.WellFormed) s ws := by
  refine guardedE_congr (fun s => s.configMutex = false) (fun s w t hs hw ht => ?_)
    (fun s w hs => releases_iff hs w) hs ws
  obtain ⟨r, hr, rfl⟩ := map_eq_ok ht
  exact ((releases_iff hs w).mpr hw : Releases plat p s w).of_eq_ok hr

/-- A device on which EyeQ is not running. -/
def plainDevice : Sysfs Unit := ⟨false, [⟨"eth0".toList, false, Dev.init {} 0 0⟩]⟩

/-- The device is not found to be enabled, and one argument is malformed, but the mutex is free
after every write. -/
theorem releases_malformedTxc :
    GuardedE (step Platform.x86 {}) (Releases Platform.x86 {}) plainDevice
      [.setTxcWeight "weight 3".toList, .recomputeDev "dev eth0".toList,
        .deleteVq "dev eth0 vq 11.0.1.1".toList] := by
  refine (releases_iff_wellFormed Platform.x86 {} plainDevice rfl _).mpr ?_
  refine guardedE_cons plainDevice trivial ?_
  refine guardedE_cons plainDevice ?_ ?_
  · exact ⟨" eth0".toList, by decide, 'e', by decide, by decide⟩
  · exact guardedE_cons plainDevice trivial trivial

/-- `echo -n eth0` instead of `echo -n dev eth0`: `recompute_dev` returns with the mutex taken, and
the next write, whatever it is, does not return. -/
theorem not_releases_malformedDev :
    ¬ GuardedE (step Platform.x86 {}) (Releases Platform.x86 {}) plainDevice
      [.recomputeDev "eth0".toList, .deleteVq "dev eth0 vq 11.0.1.1".toList] := by
  rintro ⟨hfirst, -⟩
  have hmalformed : ¬ NamesDevice (truncated "eth0".toList) := by
    rintro ⟨rest, hrest, -⟩
    have hhead : some 'e' = some 'd' := congrArg List.head? hrest
    exact absurd hhead (by decide)
  have htaken := hfirst.of_eq_ok (isoSysRecomputeDev_malformed rfl hmalformed)
  exact Bool.noConfusion htaken

end EyeQ.Sysfs
