import Icbd.Config
import Icbd.NameList
import Icbd.Split
import Icbd.Words
import Icbd.Sanitise
import Icbd.Dbm.Lists
import Icbd.Dbm.Python
import Icbd.Pkt.Inbound
import Icbd.Pkt.Outbound
import Icbd.Pkt.Pollout
import Icbd.Pkt.Teardown
import Icbd.Server.Accounts
import Icbd.Server.Admission
import Icbd.Server.Authentication
import Icbd.Server.AutoGroup
import Icbd.Server.Boot
import Icbd.Server.Drop
import Icbd.Server.Dump
import Icbd.Server.Foreign
import Icbd.Server.Formats
import Icbd.Server.Leftover
import Icbd.Server.Mailbox
import Icbd.Server.Moderator
import Icbd.Server.Nickname
import Icbd.Server.Orphans
import Icbd.Server.Refusal
import Icbd.Server.Signoff
import Icbd.Server.Tables
import Icbd.Server.Unavailable
import Icbd.Server.Wire
import Icbd.Terminated
import Icbd.Server.Controlled
import Icbd.Server.DenyFile
import Icbd.Server.Depth
import Icbd.Server.Guests
import Icbd.Server.Hush
import Icbd.Server.IdleMod
import Icbd.Server.Passwords
import Icbd.Server.Regain
import Icbd.Server.Talk
import Icbd.Server.TimeSettings
import Icbd.Server.Whois
import Icbd.Dbm.Export
import Icbd.Dbm.NameLists
import Icbd.Dbm.Save
import Icbd.Format
import Icbd.Lib.LinkedList
import Icbd.Lib.StableInsert
import Icbd.NameNodes
import Icbd.Pkt.Restart
import Icbd.Server.Export
import Icbd.Server.Deldb
import Icbd.Wildmat
import Icbd.Server.Frames
import Icbd.Server.Heard
import Icbd.Pkt.Callbacks
import Icbd.System.Run
import Icbd.System.Delivery
