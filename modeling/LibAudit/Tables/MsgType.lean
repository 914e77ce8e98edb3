import LibAudit.Lib.CString

/-!
# Names of record types

`lib/msg_typetab.h`, and the lookup by name of `lib/lookup_table.c`.  The generated lookup compares
in upper case; a name that is not in the table may still be a number, plain or as `UNKNOWN[n]`.
-/

namespace LibAudit.Tables

/-- `msg_typetab.h`, without the entries for AppArmor. -/
def msgTypeTable : List (String × Int) := [
  ("USER", 1005), ("LOGIN", 1006), ("USER_AUTH", 1100), ("USER_ACCT", 1101), ("USER_MGMT", 1102),
  ("CRED_ACQ", 1103), ("CRED_DISP", 1104), ("USER_START", 1105), ("USER_END", 1106),
  ("USER_AVC", 1107), ("USER_CHAUTHTOK", 1108), ("USER_ERR", 1109), ("CRED_REFR", 1110),
  ("USYS_CONFIG", 1111), ("USER_LOGIN", 1112), ("USER_LOGOUT", 1113), ("ADD_USER", 1114),
  ("DEL_USER", 1115), ("ADD_GROUP", 1116), ("DEL_GROUP", 1117), ("DAC_CHECK", 1118),
  ("CHGRP_ID", 1119), ("TEST", 1120), ("TRUSTED_APP", 1121), ("USER_SELINUX_ERR", 1122),
  ("USER_CMD", 1123), ("USER_TTY", 1124), ("CHUSER_ID", 1125), ("GRP_AUTH", 1126),
  ("MAC_CHECK", 1134), ("ACCT_LOCK", 1135), ("ACCT_UNLOCK", 1136), ("USER_DEVICE", 1137),
  ("SOFTWARE_UPDATE", 1138), ("SYSTEM_BOOT", 1127), ("SYSTEM_SHUTDOWN", 1128),
  ("SYSTEM_RUNLEVEL", 1129), ("SERVICE_START", 1130), ("SERVICE_STOP", 1131), ("GRP_MGMT", 1132),
  ("GRP_CHAUTHTOK", 1133), ("DAEMON_START", 1200), ("DAEMON_END", 1201), ("DAEMON_ABORT", 1202),
  ("DAEMON_CONFIG", 1203), ("DAEMON_ROTATE", 1205), ("DAEMON_RESUME", 1206),
  ("DAEMON_ACCEPT", 1207), ("DAEMON_CLOSE", 1208), ("DAEMON_ERR", 1209), ("SYSCALL", 1300),
  ("PATH", 1302), ("IPC", 1303), ("SOCKETCALL", 1304), ("CONFIG_CHANGE", 1305),
  ("SOCKADDR", 1306), ("CWD", 1307), ("EXECVE", 1309), ("IPC_SET_PERM", 1311), ("MQ_OPEN", 1312),
  ("MQ_SENDRECV", 1313), ("MQ_NOTIFY", 1314), ("MQ_GETSETATTR", 1315), ("KERNEL_OTHER", 1316),
  ("FD_PAIR", 1317), ("OBJ_PID", 1318), ("TTY", 1319), ("EOE", 1320), ("BPRM_FCAPS", 1321),
  ("CAPSET", 1322), ("MMAP", 1323), ("NETFILTER_PKT", 1324), ("NETFILTER_CFG", 1325),
  ("SECCOMP", 1326), ("PROCTITLE", 1327), ("FEATURE_CHANGE", 1328), ("KERN_MODULE", 1330),
  ("FANOTIFY", 1331), ("TIME_INJOFFSET", 1332), ("TIME_ADJNTPVAL", 1333), ("BPF", 1334),
  ("EVENT_LISTENER", 1335), ("AVC", 1400), ("SELINUX_ERR", 1401), ("AVC_PATH", 1402),
  ("MAC_POLICY_LOAD", 1403), ("MAC_STATUS", 1404), ("MAC_CONFIG_CHANGE", 1405),
  ("MAC_UNLBL_ALLOW", 1406), ("MAC_CIPSOV4_ADD", 1407), ("MAC_CIPSOV4_DEL", 1408),
  ("MAC_MAP_ADD", 1409), ("MAC_MAP_DEL", 1410), ("MAC_IPSEC_ADDSA", 1411),
  ("MAC_IPSEC_DELSA", 1412), ("MAC_IPSEC_ADDSPD", 1413), ("MAC_IPSEC_DELSPD", 1414),
  ("MAC_IPSEC_EVENT", 1415), ("MAC_UNLBL_STCADD", 1416), ("MAC_UNLBL_STCDEL", 1417),
  ("MAC_CALIPSO_ADD", 1418), ("MAC_CALIPSO_DEL", 1419), ("ANOM_PROMISCUOUS", 1700),
  ("ANOM_ABEND", 1701), ("ANOM_LINK", 1702), ("ANOM_CREAT", 1703), ("INTEGRITY_DATA", 1800),
  ("INTEGRITY_METADATA", 1801), ("INTEGRITY_STATUS", 1802), ("INTEGRITY_HASH", 1803),
  ("INTEGRITY_PCR", 1804), ("INTEGRITY_RULE", 1805), ("INTEGRITY_EVM_XATTR", 1806),
  ("KERNEL", 2000), ("ANOM_LOGIN_FAILURES", 2100), ("ANOM_LOGIN_TIME", 2101),
  ("ANOM_LOGIN_SESSIONS", 2102), ("ANOM_LOGIN_ACCT", 2103), ("ANOM_LOGIN_LOCATION", 2104),
  ("ANOM_MAX_DAC", 2105), ("ANOM_MAX_MAC", 2106), ("ANOM_AMTU_FAIL", 2107),
  ("ANOM_RBAC_FAIL", 2108), ("ANOM_RBAC_INTEGRITY_FAIL", 2109), ("ANOM_CRYPTO_FAIL", 2110),
  ("ANOM_ACCESS_FS", 2111), ("ANOM_EXEC", 2112), ("ANOM_MK_EXEC", 2113), ("ANOM_ADD_ACCT", 2114),
  ("ANOM_DEL_ACCT", 2115), ("ANOM_MOD_ACCT", 2116), ("ANOM_ROOT_TRANS", 2117),
  ("ANOM_LOGIN_SERVICE", 2118), ("RESP_ANOMALY", 2200), ("RESP_ALERT", 2201),
  ("RESP_KILL_PROC", 2202), ("RESP_TERM_ACCESS", 2203), ("RESP_ACCT_REMOTE", 2204),
  ("RESP_ACCT_LOCK_TIMED", 2205), ("RESP_ACCT_UNLOCK_TIMED", 2206), ("RESP_ACCT_LOCK", 2207),
  ("RESP_TERM_LOCK", 2208), ("RESP_SEBOOL", 2209), ("RESP_EXEC", 2210), ("RESP_SINGLE", 2211),
  ("RESP_HALT", 2212), ("RESP_ORIGIN_BLOCK", 2213), ("RESP_ORIGIN_BLOCK_TIMED", 2214),
  ("USER_ROLE_CHANGE", 2300), ("ROLE_ASSIGN", 2301), ("ROLE_REMOVE", 2302),
  ("LABEL_OVERRIDE", 2303), ("LABEL_LEVEL_CHANGE", 2304), ("USER_LABELED_EXPORT", 2305),
  ("USER_UNLABELED_EXPORT", 2306), ("DEV_ALLOC", 2307), ("DEV_DEALLOC", 2308),
  ("FS_RELABEL", 2309), ("USER_MAC_POLICY_LOAD", 2310), ("ROLE_MODIFY", 2311),
  ("USER_MAC_CONFIG_CHANGE", 2312), ("USER_MAC_STATUS", 2313), ("CRYPTO_TEST_USER", 2400),
  ("CRYPTO_PARAM_CHANGE_USER", 2401), ("CRYPTO_LOGIN", 2402), ("CRYPTO_LOGOUT", 2403),
  ("CRYPTO_KEY_USER", 2404), ("CRYPTO_FAILURE_USER", 2405), ("CRYPTO_REPLAY_USER", 2406),
  ("CRYPTO_SESSION", 2407), ("CRYPTO_IKE_SA", 2408), ("CRYPTO_IPSEC_SA", 2409),
  ("VIRT_CONTROL", 2500), ("VIRT_RESOURCE", 2501), ("VIRT_MACHINE_ID", 2502),
  ("VIRT_INTEGRITY_CHECK", 2503), ("VIRT_CREATE", 2504), ("VIRT_DESTROY", 2505),
  ("VIRT_MIGRATE_IN", 2506), ("VIRT_MIGRATE_OUT", 2507)]

/-- `AUDIT_EOE`. -/
def auditEoe : Int := 1320

/-- `AUDIT_FIRST_EVENT`. -/
def auditFirstEvent : Int := 1300

/-- `AUDIT_FIRST_ANOM_MSG`. -/
def auditFirstAnomMsg : Int := 2100

/-- `AUDIT_PROCTITLE`. -/
def auditProctitle : Int := 1327

/-- `AUDIT_KERNEL`. -/
def auditKernel : Int := 2000

/-- `AUDIT_MAC_UNLBL_ALLOW`. -/
def auditMacUnlblAllow : Int := 1406

/-- `AUDIT_MAC_CALIPSO_DEL`. -/
def auditMacCalipsoDel : Int := 1419

/-- `AUDIT_DAEMON_ROTATE`. -/
def auditDaemonRotate : Int := 1205

/-- `msg_type_s2i`. -/
def msgTypeS2i (name : Bytes) : Option Int :=
  (msgTypeTable.find? fun entry => ascii entry.1 == name.map upcase).map (·.2)

/-- A `long` converted to an `int`. -/
def longToInt (n : Int) : Int := n.bmod (2 ^ 32)

/-- `audit_name_to_msg_type`. -/
def auditNameToMsgType (name : Bytes) : Int :=
  match msgTypeS2i name with
  | some type => type
  | none =>
    if (ascii "UNKNOWN[").isPrefixOf name then
      let rest := name.drop 8
      if rest.contains 93 then longToInt (strtol ((rest.takeWhile (· != 93)).take 7)) else -1
    else
      match name with
      | [] => -1
      | b :: _ => if isDigit b then longToInt (strtol name) else -1

end LibAudit.Tables
