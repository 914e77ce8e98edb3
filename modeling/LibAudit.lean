import LibAudit.Audisp.Fifo
import LibAudit.Audisp.Counters
import LibAudit.Auditd.Serve
import LibAudit.Remote.Conservation
import LibAudit.Auditd.Runs
import LibAudit.Auditd.Control
import LibAudit.Auparse.BufferArray
import LibAudit.Auparse.SearchRules
import LibAudit.Auparse.Interpretation
import LibAudit.Auparse.Keys
import LibAudit.Auparse.UidCache
import LibAudit.Auparse.ExprRoundTrip
import LibAudit.Auparse.ExprTime
import LibAudit.Auparse.NextMatch
import LibAudit.Search.Resume
import LibAudit.Aulast.Reports
import LibAudit.Aulast.Boots
import LibAudit.Auvirt.Anomalies
import LibAudit.Auvirt.Stops
import LibAudit.Auditd.EnrichReadBack
import LibAudit.Rules.Numbers
import LibAudit.Rules.Afresh
import LibAudit.Rules.ByKey
import LibAudit.Auditd.OneLine
import LibAudit.Auditd.Rotate
import LibAudit.Spool.Create
import LibAudit.Spool.Bounds
import LibAudit.Spool.FileMode
import LibAudit.Spool.Changes
import LibAudit.Search.EventArray
import LibAudit.Auparse.EventArray
import LibAudit.Search.Untrusted
import LibAudit.Common.Strsplit
import LibAudit.Auditd.Config
