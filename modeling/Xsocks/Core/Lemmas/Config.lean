import Xsocks.Core.Impl.Config
import Xsocks.Core.Lemmas.Utils
import Xsocks.Lib.Wp

/-!
This module contains what becomes of the integers in a JSON configuration file: they are altered if and only
if they do not fit into an `int`.
-/

namespace Xsocks

open Wp

theorem wp_assignConfig (f : Config → Config) (Q : Unit → LoadState → Prop) (F : ConfigExit → LoadState → Prop)
    (st : LoadState)
    : wp (assignConfig f) Q F st ↔ Q () { st with config := f st.config } := by
  rfl

/-! # Frames -/

section

variable {α β : Type} {g : Config → α}

/--
If `x` returns, then the array of `xs_itoa` is still a string and `g` is what it was. Nothing is stored outside
of an array.
-/
def Frames (g : Config → α) (x : Load β) : Prop :=
  ∀ st : LoadState, st.itoa.Terminated →
    wp x (fun _ st' => st'.itoa.Terminated ∧ g st'.config = g st.config) (fun e _ => e ≠ .overflow) st

theorem Frames.pure (b : β) : Frames g (pure b) :=
  fun _ h => ⟨h, rfl⟩

theorem Frames.throw {e : ConfigExit} (he : e ≠ .overflow) : Frames g (throw e : Load β) :=
  fun _ _ => he

theorem Frames.get : Frames g (get : Load LoadState) :=
  fun _ h => ⟨h, rfl⟩

theorem Frames.bind {x : Load β} {γ : Type} {y : β → Load γ} (hx : Frames g x) (hy : ∀ b, Frames g (y b))
    : Frames g (x >>= y) := by
  intro st h
  rw [wp_bind]
  apply wp_mono (hx st h) _ fun _ _ h => h
  rintro b st₁ ⟨h₁, heq₁⟩
  apply wp_mono (hy b st₁ h₁) _ fun _ _ h => h
  rintro c st₂ ⟨h₂, heq₂⟩
  exact ⟨h₂, heq₂.trans heq₁⟩

theorem frames_assignConfig {f : Config → Config} (h : ∀ c, g (f c) = g c) : Frames g (assignConfig f) :=
  fun _ hst => ⟨hst, h _⟩

theorem frames_toInteger (value : JsonValue) : Frames g (JsonValue.toInteger value) := by
  unfold JsonValue.toInteger
  split <;> first | exact Frames.pure _ | exact Frames.throw (by simp)

theorem frames_toString (value : JsonValue) : Frames g (JsonValue.toString value) := by
  unfold JsonValue.toString
  split
  . exact Frames.pure _
  . next n =>
    intro st h
    obtain ⟨p, buf, heq, hbuf, -⟩ := xsItoa_str h n.toInt32
    rw [wp_bind, wp_get, heq]
    exact ⟨hbuf, rfl⟩
  . exact Frames.pure _
  . exact Frames.throw (by simp)

theorem frames_assignString {f : Config → Option CString → Config} (value : JsonValue)
    (h : ∀ c s, g (f c s) = g c)
    : Frames g (assignString value f) :=
  (frames_toString value).bind fun s => frames_assignConfig fun c => h c s

theorem frames_assignInteger {f : Config → Int32 → Config} (value : JsonValue)
    (h : ∀ c i, g (f c i) = g c)
    : Frames g (assignInteger value f) :=
  (frames_toInteger value).bind fun i => frames_assignConfig fun c => h c i

theorem frames_assignBoolean {f : Config → Int32 → Config} (name : String) (value : JsonValue)
    (h : ∀ c i, g (f c i) = g c)
    : Frames g (assignBoolean name value f) := by
  unfold assignBoolean
  split
  . exact frames_assignInteger _ h
  . exact Frames.throw (by simp)

end

/-! # Options -/

inductive ConfigOption where
  | server
  | serverPort
  | localAddress
  | localPort
  | password
  | key
  | method
  | timeout
  | logfile
  | pidfile
  | tunnelAddress
  | mtu
  | acl

inductive ConfigValue where
  | string (s : Option CString)
  | integer (i : Int32)

namespace ConfigOption

def name : ConfigOption → String
  | server => "server"
  | serverPort => "server_port"
  | localAddress => "local_address"
  | localPort => "local_port"
  | password => "password"
  | key => "key"
  | method => "method"
  | timeout => "timeout"
  | logfile => "logfile"
  | pidfile => "pidfile"
  | tunnelAddress => "tunnel_address"
  | mtu => "mtu"
  | acl => "acl"

def get : ConfigOption → Config → ConfigValue
  | server, c => .string c.remoteAddr
  | serverPort, c => .integer c.remotePort
  | localAddress, c => .string c.localAddr
  | localPort, c => .integer c.localPort
  | password, c => .string c.password
  | key, c => .string c.key
  | method, c => .string c.method
  | timeout, c => .integer c.timeout
  | logfile, c => .string c.logfile
  | pidfile, c => .string c.pidfile
  | tunnelAddress, c => .string c.tunnelAddress
  | mtu, c => .integer c.mtu
  | acl, c => .string c.acl

end ConfigOption

theorem frames_logfile {α : Type} {g : Config → α} (env : ConfigEnv) (value : JsonValue)
    (h : ∀ c s, g { c with logfile := s } = g c)
    : Frames g (configDirective.logfile env value) := by
  apply (frames_assignString value h).bind
  intro _
  apply Frames.get.bind
  intro st
  split
  . exact Frames.pure _
  . exact Frames.throw (by simp)

theorem frames_loglevel {α : Type} {g : Config → α} (value : JsonValue)
    (h : ∀ c i, g { c with loglevel := i } = g c)
    : Frames g (configDirective.loglevel value) := by
  apply (frames_toString value).bind
  intro s
  split
  . exact Frames.throw (by simp)
  . split
    . exact Frames.throw (by simp)
    . exact frames_assignConfig fun c => h c _

theorem frames_mode {α : Type} {g : Config → α} (value : JsonValue)
    (h : ∀ c i, g { c with mode := i } = g c)
    : Frames g (configDirective.mode value) := by
  apply (frames_toString value).bind
  intro s
  split
  . exact frames_assignConfig fun c => h c _
  . split
    . exact frames_assignConfig fun c => h c _
    . split
      . exact frames_assignConfig fun c => h c _
      . split
        . exact frames_assignConfig fun c => h c _
        . exact Frames.pure _

theorem frames_configDirective (env : ConfigEnv) (o : ConfigOption) {name : String} (h : name ≠ o.name)
    (value : JsonValue)
    : Frames o.get (configDirective env name value) := by
  unfold configDirective
  split
  -- Most directives assign their value to a field, which is not the one of `o`.
  all_goals try
    first
    | apply frames_assignString
    | apply frames_assignInteger
    | apply frames_assignBoolean
    | apply frames_logfile
    | apply frames_loglevel
    | apply frames_mode
    intro c v
    cases o <;> first | rfl | exact absurd rfl h
  . exact Frames.pure _
  . exact Frames.pure _
  . split
    . apply frames_assignInteger
      intro c i
      cases o <;> first | rfl | exact absurd rfl h
    . exact Frames.throw (by simp)
  . exact Frames.throw (by simp)

theorem frames_configDirectives (env : ConfigEnv) (o : ConfigOption) {values : List (String × JsonValue)}
    (h : o.name ∉ values.map Prod.fst)
    : Frames o.get (configDirectives env values) := by
  induction values with
  | nil => exact Frames.pure _
  | cons v values ih =>
    rw [List.map_cons, List.mem_cons, not_or] at h
    apply (frames_configDirective env o (Ne.symm h.1) v.2).bind
    intro _
    exact ih h.2

theorem frames_configDirective_unit (env : ConfigEnv) (name : String) (value : JsonValue)
    : Frames (fun _ => ()) (configDirective env name value) := by
  -- Some option has another name.
  have hother : ∃ o : ConfigOption, name ≠ o.name := by
    by_cases hname : name = ConfigOption.server.name
    . exact ⟨.password, by rw [hname]; decide⟩
    . exact ⟨.server, hname⟩
  obtain ⟨o, ho⟩ := hother
  intro st h
  apply wp_mono (frames_configDirective env o ho value st h) _ fun _ _ h => h
  exact fun _ _ h => ⟨h.1, rfl⟩

/-! # Integers -/

def ConfigValue.Is (i : Int) : ConfigValue → Prop
  | .string s => ∃ text, s = some text ∧ text.bytes = Decimal.ofInt i
  | .integer j => j.toInt = i

variable {F : ConfigExit → LoadState → Prop} {st : LoadState}

theorem wp_toString_integer (h : st.itoa.Terminated) (n : Int64)
    : wp (JsonValue.toString (.integer n)) (fun s st' => st'.itoa.Terminated
        ∧ ∃ text, s = some text ∧ text.bytes = Decimal.ofInt n.toInt32.toInt) F st := by
  obtain ⟨p, buf, heq, hbuf, hstr⟩ := xsItoa_str h n.toInt32
  rw [JsonValue.toString, wp_bind, wp_get, heq]
  exact ⟨hbuf, _, rfl, hstr⟩

theorem wp_assignString_integer {o : ConfigOption} {f : Config → Option CString → Config}
    (hf : ∀ c s, o.get (f c s) = .string s) (h : st.itoa.Terminated) (n : Int64)
    : wp (assignString (.integer n) f) (fun _ st' => st'.itoa.Terminated
        ∧ (o.get st'.config).Is n.toInt32.toInt) F st := by
  rw [assignString, wp_bind]
  apply wp_mono (wp_toString_integer h n) _ fun _ _ h => h
  rintro s st₁ ⟨h₁, text, rfl, htext⟩
  refine ⟨h₁, ?_⟩
  rw [hf]
  exact ⟨text, rfl, htext⟩

theorem wp_assignInteger_integer {o : ConfigOption} {f : Config → Int32 → Config}
    (hf : ∀ c i, o.get (f c i) = .integer i) (h : st.itoa.Terminated) (n : Int64)
    : wp (assignInteger (.integer n) f) (fun _ st' => st'.itoa.Terminated
        ∧ (o.get st'.config).Is n.toInt32.toInt) F st := by
  refine ⟨h, ?_⟩
  change (o.get (f st.config n.toInt32)).Is n.toInt32.toInt
  rw [hf]
  rfl

theorem wp_configDirective_integer (env : ConfigEnv) (o : ConfigOption) (n : Int64)
    (h : st.itoa.Terminated)
    : wp (configDirective env o.name (.integer n)) (fun _ st' => st'.itoa.Terminated
        ∧ (o.get st'.config).Is n.toInt32.toInt) (fun e _ => e ≠ .overflow) st := by
  have hstring (f : Config → Option CString → Config) (hf : ∀ c s, o.get (f c s) = .string s) :=
    wp_assignString_integer (F := fun e _ => e ≠ .overflow) hf h n
  have hinteger (f : Config → Int32 → Config) (hf : ∀ c i, o.get (f c i) = .integer i) :=
    wp_assignInteger_integer (F := fun e _ => e ≠ .overflow) hf h n
  cases o
  case logfile =>
    apply (wp_bind ..).mpr
    apply wp_mono (hstring _ fun _ _ => rfl) _ fun _ _ h => h
    intro _ st₁ h₁
    rw [wp_bind, wp_get]
    split
    . exact h₁
    . simp
  case serverPort | localPort | timeout | mtu => exact hinteger _ fun _ _ => rfl
  all_goals exact hstring _ fun _ _ => rfl

theorem wp_configLoad_last (env : ConfigEnv) (o : ConfigOption) (value : JsonValue) {P : ConfigValue → Prop}
    (hP : ∀ st : LoadState, st.itoa.Terminated →
      wp (configDirective env o.name value) (fun _ st' => st'.itoa.Terminated ∧ P (o.get st'.config))
        (fun e _ => e ≠ .overflow) st)
    {filename : CString} {values values' : List (String × JsonValue)}
    (hfile : env.file filename = .object (values ++ (o.name, value) :: values'))
    (hlast : o.name ∉ values'.map Prod.fst) (h : st.itoa.Terminated)
    : wp (configLoad env filename) (fun _ st' => P (o.get st'.config)) (fun e _ => e ≠ .overflow) st := by
  rw [configLoad, hfile]
  clear hfile
  induction values generalizing st with
  | nil =>
    apply (wp_bind ..).mpr
    apply wp_mono (hP st h) _ fun _ _ h => h
    rintro _ st₁ ⟨h₁, his⟩
    apply wp_mono (frames_configDirectives env o hlast st₁ h₁) _ fun _ _ h => h
    rintro _ st₂ ⟨-, heq⟩
    rw [heq]
    exact his
  | cons v values ih =>
    apply (wp_bind ..).mpr
    apply wp_mono (frames_configDirective_unit env v.1 v.2 st h) _ fun _ _ h => h
    rintro _ st₁ ⟨h₁, -⟩
    exact ih h₁

structure Unaltered (n : Int64) : Prop where
  string : ∀ is buf config, itoaCalls .zero is = some buf →
    ∃ text st', JsonValue.toString (.integer n) ⟨config, buf⟩ = .ok (some text) st' ∧ text.bytes = Decimal.ofInt n.toInt
  integer : ∀ st i st', JsonValue.toInteger (.integer n) st = .ok i st' → i.toInt = n.toInt
  loaded : ∀ env filename values (o : ConfigOption) values' st',
    env.file filename = .object (values ++ (o.name, .integer n) :: values') →
    o.name ∉ values'.map Prod.fst →
    configLoad env filename ⟨configNew, .zero⟩ = .ok () st' → (o.get st'.config).Is n.toInt

theorem toInt32_eq_iff (n : Int64) : n.toInt32.toInt = n.toInt ↔ -2 ^ 31 ≤ n.toInt ∧ n.toInt < 2 ^ 31 := by
  rw [Int64.toInt_toInt32]
  constructor
  . intro h
    rw [← h]
    have hlt := Int.bmod_lt (x := n.toInt) (m := 2 ^ 32) (by decide)
    have hle := Int.le_bmod (x := n.toInt) (m := 2 ^ 32) (by decide)
    omega
  . intro h
    apply Int.bmod_eq_of_le <;> omega

/-- The integers that the configuration takes over as they are, are those of the type `int`. -/
theorem unaltered_iff (n : Int64) : Unaltered n ↔ -2 ^ 31 ≤ n.toInt ∧ n.toInt < 2 ^ 31 := by
  rw [← toInt32_eq_iff]
  constructor
  . intro h
    obtain ⟨text, st', heq, htext⟩ := h.string [] .zero configNew rfl
    have hzero : (LoadState.mk configNew .zero).itoa.Terminated := rfl
    obtain ⟨text', heq', htext'⟩ := (post_of_ok (wp_toString_integer (F := fun _ _ => True) hzero n) heq).2
    injection heq' with heq'
    apply Decimal.ofInt_injective
    rw [← htext', ← heq', htext]
  . intro h
    constructor
    . intro is buf config hcalls
      obtain ⟨buf', hcalls', hbuf⟩ := itoaCalls_terminated (b := .zero) rfl is
      rw [hcalls, Option.some_inj] at hcalls'
      subst hcalls'
      have hbuf : (LoadState.mk config buf).itoa.Terminated := hbuf
      obtain ⟨s, st', heq, -, text, rfl, htext⟩ := exists_ok_of_wp
        (wp_toString_integer (F := fun _ _ => False) hbuf n)
      exact ⟨text, st', heq, by rw [htext, h]⟩
    . intro st i st' heq
      injection heq with heq
      rw [← heq, h]
    . intro env filename values o values' st' hfile hlast heq
      have hzero : (LoadState.mk configNew .zero).itoa.Terminated := rfl
      have his := post_of_ok (wp_configLoad_last env o _ (fun _ => wp_configDirective_integer env o n) hfile
        hlast hzero) heq
      rw [h] at his
      exact his

/-- 4294967297 is loaded as 1. -/
theorem not_unaltered : ¬ Unaltered 4294967297 := by
  intro h
  have hone := h.integer ⟨configNew, .zero⟩ 1 ⟨configNew, .zero⟩ rfl
  contradiction

end Xsocks
