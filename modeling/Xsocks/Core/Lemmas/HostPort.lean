import Xsocks.Core.Lemmas.Config

/-!
This module contains how a text is split into a host and a port, and which text is split when the
configuration is complete.
-/

namespace Xsocks

open Decimal

/-! # The last colon -/

section

variable {c : Byte} {bs : List Byte}

theorem strrchr_eq_none_iff : strrchr c bs = none ↔ c ∉ bs := by
  induction bs with
  | nil => simp [strrchr]
  | cons b bs ih =>
    rw [strrchr, List.mem_cons, not_or, ← ih]
    cases strrchr c bs with
    | none =>
      by_cases hb : b = c
      . simp [hb]
      . simp [hb, Ne.symm hb]
    | some i => simp

theorem strrchr_append {h d : List Byte} (hd : c ∉ d) : strrchr c (h ++ c :: d) = some h.length := by
  induction h with
  | nil => rw [List.nil_append, strrchr, strrchr_eq_none_iff.mpr hd, if_pos rfl, List.length_nil]
  | cons b h ih => rw [List.cons_append, strrchr, ih, List.length_cons]

theorem exists_of_strrchr {i : Nat} (h : strrchr c bs = some i)
    : ∃ d, bs = bs.take i ++ c :: d ∧ c ∉ d ∧ i < bs.length := by
  induction bs generalizing i with
  | nil => simp [strrchr] at h
  | cons b bs ih =>
    rw [strrchr] at h
    cases hrest : strrchr c bs with
    | some j =>
      rw [hrest, Option.some_inj] at h
      obtain ⟨d, heq, hd, hlt⟩ := ih hrest
      refine ⟨d, ?_, hd, by rw [List.length_cons]; omega⟩
      rw [← h, List.take_succ_cons, List.cons_append, ← heq]
    | none =>
      rw [hrest] at h
      dsimp only at h
      split at h
      . next hb =>
        rw [Option.some_inj] at h
        subst h hb
        exact ⟨bs, rfl, strrchr_eq_none_iff.mp hrest, by rw [List.length_cons]; omega⟩
      . contradiction

theorem eq_of_append_cons {h h' d d' : List Byte} (heq : h ++ c :: d = h' ++ c :: d') (hd : c ∉ d)
    (hd' : c ∉ d')
    : h = h' ∧ d = d' := by
  have hlen : h.length = h'.length := by
    have hfirst := strrchr_append (h := h) hd
    rw [heq, strrchr_append hd', Option.some_inj] at hfirst
    exact hfirst.symm
  obtain ⟨rfl, hcons⟩ := List.append_inj heq hlen
  exact ⟨rfl, (List.cons.inj hcons).2⟩

end

/-! # `atoi` -/

theorem colon_not_mem_numeral {d : List Byte} (h : Numeral d) : 58 ∉ d := by
  intro hmem
  have := h.2 58 hmem
  revert this
  decide

theorem not_isspace_of_isDigit {b : Byte} (h : IsDigit b) : isspace b = false := by
  obtain ⟨hle, -⟩ := h
  rw [UInt8.le_iff_toNat_le] at hle
  have h48 : (48 : UInt8).toNat = 48 := rfl
  unfold isspace
  rw [Bool.or_eq_false_iff, Bool.and_eq_false_iff]
  constructor
  . rw [beq_eq_false_iff_ne]
    rintro rfl
    simp at hle
  . right
    rw [decide_eq_false_iff_not, UInt8.le_iff_toNat_le]
    have h13 : (13 : UInt8).toNat = 13 := rfl
    omega

theorem atoi.long_of_range {n : Int} (h : 0 ≤ n) (hlt : n < 2 ^ 31) : (long n).toInt = n := by
  rw [long, Int64.toInt_toInt32, Int64.toInt_ofInt_of_le (by omega) (by omega)]
  rw [Int.bmod_eq_of_le (by omega) (by omega)]
  omega

theorem atoi_numeral {d : List Byte} (h : Numeral d) (hlt : val 0 d < 2 ^ 31)
    : (atoi d).toInt = val 0 d := by
  obtain ⟨hne, hall⟩ := h
  have hdigits : atoi.digits d = val 0 d := by
    rw [atoi.digits, List.takeWhile_eq_self_iff.mpr]
    intro b hb
    exact decide_eq_true (hall b hb)
  have hlong : (atoi.long (atoi.digits d)).toInt = val 0 d := by
    rw [hdigits]
    exact atoi.long_of_range (by omega) (by omega)
  cases d with
  | nil => contradiction
  | cons b bs =>
    have hb := hall b List.mem_cons_self
    have hspace : (b :: bs).dropWhile isspace = b :: bs := by
      rw [List.dropWhile_cons_of_neg]
      rw [not_isspace_of_isDigit hb]
      simp
    unfold atoi
    rw [hspace]
    have hsign : b ≠ 45 ∧ b ≠ 43 := by
      constructor
      all_goals
        rintro rfl
        revert hb
        decide
    split
    . next heq => exact absurd (List.cons.inj heq).1 hsign.1
    . next heq => exact absurd (List.cons.inj heq).1 hsign.2
    . exact hlong

/-! # `netHostPortParse` -/

theorem netHostPortParse_none {addr : CString} (h : 58 ∉ addr.bytes) (host : Bytes HOSTNAME_MAX_LEN)
    (port : Int32)
    : netHostPortParse addr host port = some (ERR, host, port) := by
  rw [netHostPortParse, strrchr_eq_none_iff.mpr h]

theorem netHostPortParse_append {addr : CString} {h d : List Byte} (heq : addr.bytes = h ++ 58 :: d)
    (hd : 58 ∉ d) (host : Bytes HOSTNAME_MAX_LEN) (port : Int32)
    : netHostPortParse addr host port = (host.store (h ++ [0])).map fun host => (OK, host, atoi d) := by
  have hdrop : (h ++ 58 :: d).drop (h.length + 1) = d := by
    rw [← List.drop_drop, List.drop_left, List.drop_one, List.tail_cons]
  rw [netHostPortParse, heq, strrchr_append hd]
  dsimp only
  rw [List.take_left, hdrop]

theorem netHostPortParse_some {addr host : CString} {d : List Byte} (heq : addr.bytes = host.bytes ++ 58 :: d)
    (hd : 58 ∉ d) (hlen : host.bytes.length ≤ 255) (buf : Bytes HOSTNAME_MAX_LEN) (port : Int32)
    : ∃ buf', netHostPortParse addr buf port = some (OK, buf', atoi d) ∧ .ofBuf buf'.val = host := by
  have hle : (host.bytes ++ [0]).length ≤ HOSTNAME_MAX_LEN := by
    rw [List.length_append, List.length_singleton, HOSTNAME_MAX_LEN]
    omega
  rw [netHostPortParse_append heq hd, Bytes.store, dif_pos hle]
  refine ⟨_, rfl, ?_⟩
  apply CString.ext
  rw [CString.ofBuf]
  dsimp only
  rw [List.append_assoc, List.takeWhile_append_of_pos]
  . simp
  . intro b hb
    have : b ≠ 0 := fun h0 => host.noNul (h0 ▸ hb)
    simpa using this

theorem netHostPortParse_overflow {addr : CString} {h d : List Byte} (heq : addr.bytes = h ++ 58 :: d)
    (hd : 58 ∉ d) (hlen : 255 < h.length) (buf : Bytes HOSTNAME_MAX_LEN) (port : Int32)
    : netHostPortParse addr buf port = none := by
  rw [netHostPortParse_append heq hd, Bytes.store, dif_neg]
  . rfl
  . rw [List.length_append, List.length_singleton, HOSTNAME_MAX_LEN]
    omega

/-! # The tunnel address in effect -/

def Opt.tunnelAddress? : Opt → Option CString
  | .L optarg => some optarg
  | _ => none

def Opt.confPath? : Opt → Option CString
  | .c optarg => some optarg
  | _ => none

def lastOpt (f : Opt → Option CString) (first : Option CString) (opts : List Opt) : Option CString :=
  opts.foldl (fun last opt => (f opt).or last) first

def GivenTunnel (env : ConfigEnv) (opts : List Opt) (text : CString) : Prop :=
  lastOpt Opt.tunnelAddress? none opts = some text
    ∨ lastOpt Opt.tunnelAddress? none opts = none
      ∧ ∃ path values values', lastOpt Opt.confPath? none opts = some path
        ∧ env.file path = .object (values ++ ("tunnel_address", .string text) :: values')
        ∧ "tunnel_address" ∉ values'.map Prod.fst

theorem configOption_spec (env : ConfigEnv) (args : Args) (opt : Opt)
    : configOption env args opt = .error .version
      ∨ ∃ args', configOption env args opt = .ok args'
        ∧ args'.tunnelAddress = opt.tunnelAddress?.or args.tunnelAddress
        ∧ args'.confPath = opt.confPath?.or args.confPath := by
  cases opt
  case V => exact .inl rfl
  case loglevel optarg =>
    right
    rw [configOption]
    cases configEnumGetValue loglevelEnum optarg <;> exact ⟨_, rfl, rfl, rfl⟩
  all_goals exact .inr ⟨_, rfl, rfl, rfl⟩

theorem configOptions_spec (env : ConfigEnv) (args : Args) (opts : List Opt)
    : configOptions env args opts = .error .version
      ∨ ∃ args', configOptions env args opts = .ok args'
        ∧ args'.tunnelAddress = lastOpt Opt.tunnelAddress? args.tunnelAddress opts
        ∧ args'.confPath = lastOpt Opt.confPath? args.confPath opts := by
  induction opts generalizing args with
  | nil => exact .inr ⟨args, rfl, rfl, rfl⟩
  | cons opt opts ih =>
    rw [configOptions]
    rcases configOption_spec env args opt with heq | ⟨args₁, heq, htunnel, hconf⟩
    . rw [heq]
      exact .inl rfl
    . rw [heq]
      have := ih args₁
      rw [htunnel, hconf] at this
      exact this

open Wp

theorem frames_configLoadPath (env : ConfigEnv) (confPath : Option CString)
    : Frames (fun _ => ()) (configLoadPath env confPath) := by
  unfold configLoadPath
  split
  . exact Frames.pure _
  . unfold configLoad
    split
    . exact Frames.throw (by simp)
    . exact Frames.throw (by simp)
    . next values heq =>
      clear heq
      induction values with
      | nil => exact Frames.pure _
      | cons v values ih => exact (frames_configDirective_unit env v.1 v.2).bind fun _ => ih

theorem wp_configParse {env : ConfigEnv} {opts : List Opt} {text : CString} (h : GivenTunnel env opts text)
    : wp (configParse env opts)
        (fun _ st' => ∃ port₀ rc host port, netHostPortParse text hostZero port₀ = some (rc, host, port)
          ∧ st'.config.tunnelAddr = some host ∧ st'.config.tunnelPort = port)
        (fun e _ => e = .overflow → ∃ port₀, netHostPortParse text hostZero port₀ = none)
        ⟨configNew, .zero⟩ := by
  have hzero : (LoadState.mk configNew .zero).itoa.Terminated := rfl
  rw [configParse]
  rcases configOptions_spec env {} opts with heq | ⟨args, heq, htunnel, hconf⟩
  . rw [heq]
    intro hover
    contradiction
  . rw [heq]
    dsimp only
    have hload : wp (configLoadPath env args.confPath)
        (fun _ st => (args.dup st.config).tunnelAddress = some text) (fun e _ => e ≠ .overflow)
        ⟨configNew, .zero⟩ := by
      rcases h with hlast | ⟨hnone, path, values, values', hpath, hfile, hother⟩
      . apply wp_mono (frames_configLoadPath env args.confPath _ hzero) _ fun _ _ h => h
        intro _ st _
        have htext : args.tunnelAddress = some text := htunnel.trans hlast
        rw [Args.dup, htext]
        rfl
      . have hstring (st : LoadState) (hst : st.itoa.Terminated)
            : wp (configDirective env ConfigOption.tunnelAddress.name (.string text))
                (fun _ st' => st'.itoa.Terminated
                  ∧ ConfigOption.tunnelAddress.get st'.config = .string (some text))
                (fun e _ => e ≠ .overflow) st := ⟨hst, rfl⟩
        rw [hconf.trans hpath]
        apply wp_mono (wp_configLoad_last (P := (· = .string (some text))) env .tunnelAddress _ hstring hfile
          hother hzero) _ fun _ _ h => h
        intro _ st hst
        injection hst with hst
        have htext : args.tunnelAddress = none := htunnel.trans hnone
        rw [Args.dup, htext, hst]
        rfl
    rw [wp_bind]
    apply wp_mono hload
    . intro _ st hst
      rw [wp_bind, wp_assignConfig, wp_bind, configTunnel, wp_bind, wp_get]
      dsimp only
      rw [hst]
      dsimp only
      cases hparse : netHostPortParse text hostZero (args.dup st.config).tunnelPort with
      | none => exact fun _ => ⟨_, hparse⟩
      | some parsed =>
        obtain ⟨rc, host, port⟩ := parsed
        dsimp only
        rw [wp_assignConfig]
        cases args.err with
        | some err =>
          intro hover
          contradiction
        | none => exact ⟨_, rc, host, port, hparse, rfl, rfl⟩
    . exact fun e _ he hover => absurd hover he

end Xsocks
